
/-!
# Text and bytes

Every byte sequence is the bytes of one text: a byte that belongs to no character, a stray byte,
stands as one of the last 128 code points, and a character that is one of them stands as the stray
bytes of its own encoding. A text is shown with the replacement character in place of each stray
byte.
-/

namespace BytecodeAudit

namespace Word

def span (bits : Nat) : Nat := Nat.pow 2 bits

def fitsSigned (bits : Nat) (n : Int) : Bool := -(span (bits - 1) : Int) ≤ n && n < span (bits - 1)

def unsigned (bits : Nat) (n : Int) : Nat := (n % (span bits : Int)).toNat

def signed (bits : Nat) (n : Int) : Int := Int.bmod n (span bits)

end Word

namespace Text

/-! ### Blank characters

Names given by people are trimmed of Unicode white space before they are compared. -/

def isBlank (c : Char) : Bool :=
  let n := c.toNat
  (0x09 ≤ n && n ≤ 0x0d) || n == 0x20 || n == 0x85 || n == 0xa0 || n == 0x1680 ||
    (0x2000 ≤ n && n ≤ 0x200a) || n == 0x2028 || n == 0x2029 || n == 0x202f || n == 0x205f ||
    n == 0x3000

/-- Drops the elements satisfying `p` at both ends. -/
def trimBoth {α : Type} (p : α → Bool) (xs : List α) : List α :=
  ((xs.dropWhile p).reverse.dropWhile p).reverse

def trim (s : String) : String :=
  String.ofList (trimBoth isBlank s.toList)

/-! ### Numbers in digits -/

def hexValue? (c : Char) : Option Nat :=
  let n := c.toNat
  if 0x30 ≤ n && n ≤ 0x39 then some (n - 0x30)
  else if 0x61 ≤ n && n ≤ 0x66 then some (n - 0x61 + 10)
  else if 0x41 ≤ n && n ≤ 0x46 then some (n - 0x41 + 10)
  else none

def digit? (base : Nat) (c : Char) : Option Nat := (hexValue? c).filter (· < base)

def number? (base : Nat) (cs : List Char) : Option Nat :=
  if cs.isEmpty then none else cs.foldlM (fun n c => (digit? base c).map (n * base + ·)) 0

/-- The digits behind a mark of a base, with that base. A lone leading zero marks base eight. -/
def baseOf : List Char → Nat × List Char
  | '0' :: c :: cs =>
    match c.toLower with
    | 'x' => (16, cs)
    | 'o' => (8, cs)
    | 'b' => (2, cs)
    | _ => (8, c :: cs)
  | cs => (10, cs)

def splitSign : List Char → Option Char × List Char
  | '-' :: cs => (some '-', cs)
  | '+' :: cs => (some '+', cs)
  | cs => (none, cs)

/-- The digits before a point, those behind it, and the rest. Without a point there is no
fraction. -/
def splitPoint (isDigit : Char → Bool) (cs : List Char) : List Char × List Char × List Char :=
  match cs.dropWhile isDigit with
  | '.' :: rest => (cs.takeWhile isDigit, rest.takeWhile isDigit, rest.dropWhile isDigit)
  | rest => (cs.takeWhile isDigit, [], rest)

/-! ### Bytes -/

/-- The code point of a stray byte of value zero; stray bytes are at least `0x80`. -/
def strayBase : Nat := 0x10ff00

def strayChar (b : UInt8) : Char := Char.ofNat (strayBase + b.toNat)

def isStray (c : Char) : Bool := strayBase + 0x80 ≤ c.toNat

def charBytes (c : Char) : List UInt8 := (String.singleton c).toUTF8.data.toList

/-- How a character stands in a text: as itself, or as the stray bytes of its encoding. -/
def spelled (c : Char) : List Char := if isStray c then (charBytes c).map strayChar else [c]

/-- The text of characters, none of which stands for a stray byte. -/
def ofChars (cs : List Char) : String :=
  String.ofList (if cs.any isStray then cs.flatMap spelled else cs)

@[irreducible]
def toBytes (s : String) : List UInt8 :=
  if s.toList.any isStray then
    s.toList.flatMap fun c => if isStray c then [UInt8.ofNat (c.toNat - strayBase)] else charBytes c
  else s.toUTF8.data.toList

/-- A text in its place among texts: by its bytes, and by its characters where the bytes are the
same. -/
structure Rank where
  text : String
deriving DecidableEq

def rank (s : String) : Rank := ⟨s⟩

namespace Rank

/-- The bytes that decide between two texts. -/
def bytes (r : Rank) : List Nat := (toBytes r.text).map UInt8.toNat

instance : LT Rank := ⟨fun a b => a.bytes < b.bytes ∨ a.bytes = b.bytes ∧ a.text < b.text⟩

instance : LE Rank := ⟨fun a b => a.bytes < b.bytes ∨ a.bytes = b.bytes ∧ a.text ≤ b.text⟩

instance : DecidableLT Rank := fun a b =>
  inferInstanceAs (Decidable (a.bytes < b.bytes ∨ a.bytes = b.bytes ∧ a.text < b.text))

instance : DecidableLE Rank := fun a b =>
  inferInstanceAs (Decidable (a.bytes < b.bytes ∨ a.bytes = b.bytes ∧ a.text ≤ b.text))

end Rank

/-- Changes the value of a name in a table that ascends by name, or else puts a new one in its
place. -/
def place {α : Type} (name : String) (new : α) (change : α → α) : List (String × α) → List (String × α)
  | [] => [(name, new)]
  | (n, x) :: xs =>
    if n == name then (n, change x) :: xs
    else if rank name < rank n then (name, new) :: (n, x) :: xs
    else (n, x) :: place name new change xs

def continuation? (b : UInt8) : Option Nat :=
  if 0x80 ≤ b && b < 0xc0 then some (b.toNat - 0x80) else none

/-- The character a byte sequence starts with, if any, and the rest. Overlong forms, surrogates and
code points beyond the last plane are none. -/
def firstChar? : List UInt8 → Option (Char × List UInt8)
  | [] => none
  | a :: rest =>
    if a < 0x80 then some (Char.ofNat a.toNat, rest)
    else if 0xc2 ≤ a && a < 0xe0 then
      match rest with
      | b :: rest => (continuation? b).map fun y => (Char.ofNat ((a.toNat - 0xc0) * 64 + y), rest)
      | _ => none
    else if 0xe0 ≤ a && a < 0xf0 then
      match rest with
      | b :: c :: rest => do
        let y ← continuation? b
        let z ← continuation? c
        let n := ((a.toNat - 0xe0) * 64 + y) * 64 + z
        if 0x800 ≤ n && n.isValidChar then some (Char.ofNat n, rest) else none
      | _ => none
    else if 0xf0 ≤ a && a < 0xf5 then
      match rest with
      | b :: c :: d :: rest => do
        let y ← continuation? b
        let z ← continuation? c
        let w ← continuation? d
        let n := (((a.toNat - 0xf0) * 64 + y) * 64 + z) * 64 + w
        if 0x10000 ≤ n && n.isValidChar then some (Char.ofNat n, rest) else none
      | _ => none
    else none

/-- The characters of a byte sequence, by how a character and a stray byte stand. -/
def decodeChars (char : Char → List Char) (stray : UInt8 → Char) (fuel : Nat) (acc : List Char)
    (bs : List UInt8) : List Char :=
  match fuel, bs with
  | 0, _ => acc.reverse
  | _, [] => acc.reverse
  | n + 1, b :: rest =>
    match firstChar? (b :: rest) with
    | some (c, rest) => decodeChars char stray n ((char c).reverse ++ acc) rest
    | none => decodeChars char stray n (stray b :: acc) rest

def ofBytes (bs : List UInt8) : String := String.ofList (decodeChars spelled strayChar bs.length [] bs)

def shownChars (bs : List UInt8) : List Char :=
  decodeChars (fun c => [c]) (fun _ => '�') bs.length [] bs

@[irreducible]
def shown (s : String) : String :=
  if s.toList.any isStray then String.ofList (shownChars (toBytes s)) else s

/-! ### Quoted text

Between quotes, the quote itself, the backslash and all that is not printable, stray bytes one by
one, are escaped by a backslash. -/

/-! ### Printable characters

Letters, marks, numbers, punctuation, symbols and the plain space may stand as themselves inside
quoted text; all else is written as escapes.

A set of code points is given by the lengths of its runs, outside and inside in turn, from zero on.
The table is that of Unicode 17. -/

def printableRuns : List Nat := [
  161,12,1,714,2,6,4,7,1,1,1,20,1,397,1,38,2,50,2,3,1,55,8,27,4,6,17,22,1,192,1,48,2,59,2,101,14,59,2,49,2,15,1,28,2,1,
  1,11,5,32,7,75,1,161,1,8,2,2,2,22,1,7,1,1,3,4,2,9,2,2,2,4,8,1,4,2,1,5,2,25,2,3,1,6,4,2,2,22,1,7,1,2,1,2,1,2,2,1,1,5,4,
  2,2,3,3,1,7,4,1,1,7,17,10,3,1,9,1,3,1,22,1,7,1,2,1,5,2,10,1,3,1,3,2,1,15,4,2,12,7,7,1,3,1,8,2,2,2,22,1,7,1,2,1,5,2,9,
  2,2,2,3,7,3,4,2,1,5,2,18,10,2,1,6,3,3,1,4,3,2,1,1,1,2,3,2,3,3,3,12,4,5,3,3,1,4,2,1,6,1,14,21,5,13,1,3,1,23,1,16,2,9,1,
  3,1,4,7,2,1,3,1,2,2,4,2,10,7,22,1,3,1,23,1,10,1,5,2,9,1,3,1,4,7,2,5,3,1,4,2,10,1,3,12,13,1,3,1,51,1,3,1,6,4,16,2,26,1,
  3,1,18,3,24,1,9,1,1,2,7,3,1,4,6,1,1,1,8,6,10,2,3,12,58,4,29,37,2,1,1,1,5,1,24,1,1,1,23,2,5,1,1,1,7,1,10,2,4,32,72,1,
  36,4,39,1,36,1,15,1,13,37,198,1,1,5,1,2,377,1,4,2,7,1,1,1,4,2,41,1,4,2,33,1,4,2,7,1,1,1,4,2,15,1,57,1,4,2,67,2,32,3,
  26,6,86,2,6,2,640,1,28,3,89,7,22,9,24,9,20,12,13,1,3,1,2,12,94,2,10,6,10,6,14,1,11,6,89,7,43,5,70,10,31,1,12,4,12,4,1,
  3,42,2,5,11,44,4,26,6,11,3,62,2,65,1,29,2,11,6,10,6,14,2,46,2,12,20,77,1,166,8,60,3,15,3,62,5,43,2,11,8,43,5,534,2,6,
  2,38,2,6,2,8,1,1,1,1,1,1,1,31,2,53,1,15,1,14,2,6,1,19,2,3,1,9,17,24,8,47,17,2,2,27,1,13,3,34,14,33,15,140,4,666,22,11,
  21,1812,2,382,5,45,1,1,5,1,2,56,7,2,14,24,9,7,1,7,1,7,1,7,1,7,1,7,1,7,1,7,1,126,34,26,1,89,12,214,26,16,1,63,1,86,2,
  103,5,43,1,94,1,86,9,48,1,29293,3,55,9,348,20,184,8,221,20,60,3,10,6,56,8,70,8,12,6,116,11,30,3,78,1,11,4,33,1,55,9,
  14,2,10,2,103,24,28,10,6,2,6,2,6,9,7,1,7,1,60,4,126,2,10,6,11172,12,23,4,49,8452,366,2,106,38,7,12,5,5,26,1,5,1,1,1,2,
  1,2,1,650,32,42,6,51,1,19,1,4,4,5,1,135,4,190,3,6,2,6,2,6,2,3,3,7,1,7,13,2,2,12,1,26,1,19,1,2,1,15,2,14,34,123,5,3,4,
  45,3,88,1,13,3,1,47,46,130,29,3,49,15,28,4,36,9,30,5,43,5,30,1,37,4,14,42,158,2,10,6,36,4,36,4,40,8,52,11,12,1,15,1,7,
  1,2,1,11,1,15,1,7,1,2,3,52,12,311,9,22,10,8,24,6,1,42,1,9,69,6,2,1,1,44,1,2,3,1,2,23,1,72,8,9,48,19,1,2,5,33,3,27,5,
  27,38,56,4,20,2,50,1,2,5,8,1,3,1,29,2,3,4,10,7,9,7,64,32,39,4,12,9,54,3,29,2,27,5,26,7,4,12,7,80,73,55,51,13,51,7,46,
  8,10,6,38,3,29,8,2,208,31,1,42,1,3,2,2,16,6,8,9,33,46,8,42,22,26,38,28,20,23,9,78,4,36,9,62,1,5,13,25,7,10,6,53,1,18,
  8,39,9,96,1,20,11,18,1,47,62,7,1,1,1,4,1,15,1,11,6,59,5,10,6,4,1,8,2,2,2,22,1,7,1,2,1,5,1,10,2,2,2,3,2,1,6,1,5,7,2,7,
  3,5,11,10,1,1,2,1,1,38,1,10,1,1,2,1,1,4,1,10,1,2,8,2,29,92,1,5,30,72,8,10,166,54,2,38,34,69,11,10,6,13,19,58,6,10,6,
  20,28,27,2,15,4,23,185,60,100,83,12,8,2,1,2,8,1,2,1,30,1,2,2,12,9,10,70,8,2,46,2,11,27,72,8,83,13,73,7,10,86,8,88,34,
  14,10,6,9,1,45,1,14,10,29,3,32,2,22,1,14,73,7,1,2,1,44,3,1,1,2,1,9,8,10,6,6,1,2,1,37,1,2,1,6,7,10,6,44,4,10,246,25,7,
  17,1,41,3,29,85,1,15,50,13,923,102,111,1,5,11,196,2636,99,13,1072,16,22,10,3995,5,583,6841,58,1734,569,7,31,1,10,4,81,
  1,10,6,30,2,6,10,70,10,10,1,7,1,21,5,19,432,58,198,91,5,25,2,25,44,75,4,57,7,17,64,5,11,7,9,7382,41,32,97,115,8701,4,
  1,7,1,2,1,291,15,1,29,3,2,1,14,4,8,396,2308,107,5,13,3,9,7,10,2,4,3936,253,3,436,6,23,15,17,15,46,2,23,9,116,60,246,
  10,39,2,74,8,112,21,70,122,20,12,20,12,87,9,25,135,85,1,71,1,2,2,1,2,2,2,4,1,12,1,1,1,7,1,65,1,4,2,8,1,7,1,28,1,4,1,5,
  1,1,3,7,1,340,2,292,2,702,15,5,1,15,1104,31,6,6,213,7,1,17,2,7,1,2,1,5,5,62,33,1,112,45,3,14,2,10,4,2,320,31,17,58,5,
  1,464,42,214,43,4,1,192,31,1,22,8,2,224,7,1,4,1,2,1,15,1,197,2,16,41,76,4,10,4,2,785,68,76,61,194,4,1,27,1,2,1,1,2,1,
  1,10,1,4,1,1,1,1,6,1,4,1,1,1,1,1,1,3,1,2,1,1,2,1,1,1,1,1,1,1,1,1,1,2,1,1,2,4,1,7,1,4,1,4,1,1,1,10,1,17,5,3,1,5,1,17,
  52,2,270,44,4,100,12,15,2,15,1,15,1,37,10,174,56,29,13,44,4,9,7,2,14,6,154,985,3,17,3,13,3,218,6,12,4,1,15,12,4,56,8,
  10,6,40,8,30,2,12,4,2,14,9,39,344,8,14,2,13,3,11,3,57,1,1,4,16,2,12,4,10,7,147,1,103,1029,42720,32,4382,2,5774,2,7473,
  15,622,2466,542,1506,4939,5,8490,707718,240]

def inRuns : List Nat → Nat → Bool
  | outside :: inside :: runs, n =>
    if n < outside then false
    else if n < outside + inside then true
    else inRuns runs (n - (outside + inside))
  | _, _ => false

def isPrintable (c : Char) : Bool :=
  if c.toNat < 0x7f then 0x20 ≤ c.toNat else inRuns printableRuns c.toNat

/-! ### Quoting -/

def hexDigits (width n : Nat) : String :=
  let digits := Nat.toDigits 16 n
  String.ofList (List.replicate (width - digits.length) '0' ++ digits)

def letterEscape? (c : Char) : Option String :=
  match c.toNat with
  | 0x07 => some "\\a"
  | 0x08 => some "\\b"
  | 0x0c => some "\\f"
  | 0x0a => some "\\n"
  | 0x0d => some "\\r"
  | 0x09 => some "\\t"
  | 0x0b => some "\\v"
  | _ => none

def numericEscape (c : Char) : String :=
  let n := c.toNat
  if n < 0x20 || n == 0x7f then "\\x" ++ hexDigits 2 n
  else if n < 0x10000 then "\\u" ++ hexDigits 4 n
  else "\\U" ++ hexDigits 8 n

def standsAsItself (ascii : Bool) (c : Char) : Bool :=
  (!ascii || c.toNat < 0x80) && isPrintable c

def quotedChar (ascii : Bool) (quote c : Char) : String :=
  if isStray c then "\\x" ++ hexDigits 2 (c.toNat - strayBase)
  else if c == quote || c == '\\' then String.ofList ['\\', c]
  else if standsAsItself ascii c then String.singleton c
  else (letterEscape? c).getD (numericEscape c)

def quotedWith (ascii : Bool) (quote : Char) (s : String) : String :=
  String.singleton quote ++ String.join (s.toList.map (quotedChar ascii quote)) ++
    String.singleton quote

def quoted (s : String) : String := quotedWith false '"' s

/-- Whether text can stand between backquotes: it holds no backquote, byte order mark, stray byte or
control character but the tab. -/
def fitsBackquotes (s : String) : Bool :=
  s.toList.all fun c =>
    let n := c.toNat
    n != 0xfeff && !isStray c && (n ≥ 0x80 || !((n < 0x20 && n != 0x09) || n == 0x60 || n == 0x7f))

/-! ### Letter case

One-to-one case mapping of characters; letters whose other case has several characters (`ß`) keep
their form. A mapping is a table of runs. -/

/-- A run of code points that a case mapping shifts by the same distance. -/
structure CaseRun where
  first : Nat
  last : Nat
  step : Nat
  shift : Int

/-- Blocks of capitals beyond ASCII, by the distance of their small letters. -/
def capitalBlocks : List (Nat × Nat × Int) := [
  (192,214,32),(216,222,32),(393,394,205),(433,434,217),(904,906,37),(910,911,63),(913,929,32),(931,939,32),
  (1021,1023,-130),(1024,1039,80),(1040,1071,32),(1329,1366,48),(4256,4293,7264),(5024,5103,38864),(5104,5109,8),
  (7312,7354,-3008),(7357,7359,-3008),(7944,7951,-8),(7960,7965,-8),(7976,7983,-8),(7992,7999,-8),(8008,8013,-8),
  (8040,8047,-8),(8072,8079,-8),(8088,8095,-8),(8104,8111,-8),(8120,8121,-8),(8122,8123,-74),(8136,8139,-86),
  (8152,8153,-8),(8154,8155,-100),(8168,8169,-8),(8170,8171,-112),(8184,8185,-128),(8186,8187,-126),(8544,8559,16),
  (9398,9423,26),(11264,11311,48),(11390,11391,-10815),(65313,65338,32),(66560,66599,40),(66736,66771,40),
  (66928,66938,39),(66940,66954,39),(66956,66962,39),(66964,66965,39),(68736,68786,64),(68944,68965,32),
  (71840,71871,32),(93760,93791,32),(93856,93880,27),(125184,125217,34)]

/-- Capitals that alternate with their small letters, by the first one and how many there are. -/
def pairedCapitals : List (Nat × Nat) := [
  (256,24),(306,3),(313,8),(330,23),(377,3),(386,2),(391,1),(395,1),(401,1),(408,1),(416,3),(423,1),(428,1),(431,1),
  (435,2),(440,1),(444,1),(453,1),(456,1),(459,9),(478,9),(498,2),(504,20),(546,9),(571,1),(577,1),(582,5),(880,2),
  (886,1),(984,12),(1015,1),(1018,1),(1120,17),(1162,27),(1217,7),(1232,48),(7305,1),(7680,75),(7840,48),(8579,1),
  (11360,1),(11367,3),(11378,1),(11381,1),(11392,50),(11499,2),(11506,1),(42560,23),(42624,14),(42786,7),(42802,31),
  (42873,2),(42878,5),(42891,1),(42896,2),(42902,10),(42932,8),(42951,2),(42956,2),(42960,1),(42962,2),(42966,2),
  (42970,1),(42997,1)]

/-- Other capitals, by the distance of the small letter. -/
def loneCapitals : List (Nat × Int) := [
  (304,-199),(376,-121),(385,210),(390,206),(398,79),(399,202),(400,203),(403,205),(404,207),(406,211),(407,209),
  (412,211),(413,213),(415,214),(422,218),(425,218),(430,218),(439,219),(452,2),(455,2),(458,2),(497,2),(502,-97),
  (503,-56),(544,-130),(570,10795),(573,-163),(574,10792),(579,-195),(580,69),(581,71),(895,116),(902,38),(908,64),
  (975,8),(1012,-60),(1017,-7),(1216,15),(4295,7264),(4301,7264),(7838,-7615),(8025,-8),(8027,-8),(8029,-8),(8031,-8),
  (8124,-9),(8140,-9),(8172,-7),(8188,-9),(8486,-7517),(8490,-8383),(8491,-8262),(8498,28),(11362,-10743),(11363,-3814),
  (11364,-10727),(11373,-10780),(11374,-10749),(11375,-10783),(11376,-10782),(42877,-35332),(42893,-42280),
  (42922,-42308),(42923,-42319),(42924,-42315),(42925,-42305),(42926,-42308),(42928,-42258),(42929,-42282),
  (42930,-42261),(42931,928),(42948,-48),(42949,-42307),(42950,-35384),(42955,-42343),(42972,-42561)]

def CaseRun.lone (x : Nat × Int) : CaseRun := ⟨x.1, x.1, 1, x.2⟩

def lowerRuns : Array CaseRun := .mk <|
  capitalBlocks.map (fun (first, last, shift) => ⟨first, last, 1, shift⟩) ++ loneCapitals.map .lone ++
    pairedCapitals.map fun (first, n) => ⟨first, first + 2 * (n - 1), 2, 1⟩

def CaseRun.flip (r : CaseRun) : CaseRun :=
  ⟨(r.first + r.shift).toNat, (r.last + r.shift).toNat, r.step, -r.shift⟩

/-- Where the mapping to capitals is not the mapping to small letters the other way round. -/
def oddSmalls : List (Nat × Int) := [
  (181,743),(223,0),(305,-232),(383,-300),(453,-1),(456,-1),(459,-1),(498,-1),(837,84),(962,-31),(976,-62),(977,-57),
  (981,-47),(982,-54),(1008,-86),(1009,-80),(1013,-96),(7296,-6254),(7297,-6253),(7298,-6244),(7299,-6242),(7300,-6242),
  (7301,-6243),(7302,-6236),(7303,-6181),(7304,35266),(7835,-59),(8126,-7205)]

/-- Runs of the mapping to capitals beyond ASCII, the odd ones first. -/
def upperRuns : Array CaseRun := (oddSmalls.map .lone).toArray ++ lowerRuns.map .flip

/-- The shift that the first run holding `n` gives it, zero when there is none. -/
def shiftOf (runs : Array CaseRun) (n : Nat) : Int :=
  match runs.find? fun r => r.first ≤ n && n ≤ r.last && (n - r.first) % r.step == 0 with
  | some r => r.shift
  | none => 0

def lowerChar (c : Char) : Char :=
  if c.toNat < 0x80 then c.toLower else Char.ofNat (c.toNat + shiftOf lowerRuns c.toNat).toNat

def upperChar (c : Char) : Char :=
  if c.toNat < 0x80 then c.toUpper else Char.ofNat (c.toNat + shiftOf upperRuns c.toNat).toNat

def lower (s : String) : String := ofChars ((shown s).toList.map lowerChar)

def upper (s : String) : String := ofChars ((shown s).toList.map upperChar)

end Text

end BytecodeAudit
