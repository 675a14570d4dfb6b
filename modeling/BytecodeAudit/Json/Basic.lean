import BytecodeAudit.Text.Basic

/-!
# JSON

The values of a JSON document. Numbers keep the literal they were written with, so that no digit is
lost; objects keep their fields in document order, repeated names included. The last of several
fields with one name counts.
-/

namespace BytecodeAudit

inductive Json where
  | null
  | bool (b : Bool)
  | number (literal : String)
  | string (s : String)
  | array (items : List Json)
  | object (fields : List (String × Json))
deriving Inhabited, Repr

namespace Json

def int (n : Int) : Json := .number (toString n)

def nat (n : Nat) : Json := .number (toString n)

def strings (xs : List String) : Json := .array (xs.map .string)

def field? (name : String) : Json → Option Json
  | .object fields => (fields.reverse.find? (·.1 == name)).map (·.2)
  | _ => none

def field (j : Json) (name : String) : Json := (j.field? name).getD .null

def items : Json → List Json
  | .array xs => xs
  | _ => []

def fields : Json → List (String × Json)
  | .object fs => fs
  | _ => []

def text : Json → String
  | .string s => s
  | _ => ""

def truth : Json → Bool
  | .bool b => b
  | _ => false

def isNull : Json → Bool
  | .null => true
  | _ => false

def digits? (ds : List Char) : Option Nat :=
  if !ds.isEmpty && ds.all Char.isDigit then some (Nat.ofDigitChars 10 ds 0) else none

def int? : Json → Option Int
  | .number s =>
    match s.toList with
    | '-' :: ds => (digits? ds).map fun (n : Nat) => -(n : Int)
    | ds => (digits? ds).map Int.ofNat
  | _ => none

def integer (j : Json) : Int := j.int?.getD 0

def natural (j : Json) : Nat := j.integer.toNat

def texts (j : Json) : List String := j.items.map text

def compactFields (fs : List (String × Option Json)) : Json :=
  .object (fs.filterMap fun (k, v) => v.map (k, ·))

def text? (s : String) : Option Json := if s.isEmpty then none else some (.string s)

/-- A field that is left out when it is zero. -/
def nonzero? (n : Int) : Option Json := if n == 0 then none else some (.int n)

/-- A field that is left out when it is false. -/
def true? (b : Bool) : Option Json := if b then some (.bool true) else none

def nonempty? (xs : List Json) : Option Json := if xs.isEmpty then none else some (.array xs)

def arrayOrNull (xs : List Json) : Json := if xs.isEmpty then .null else .array xs

def maxDepth : Nat := 10000

mutual

def nesting : Json → Nat
  | .array xs => nestingOfItems xs + 1
  | .object fs => nestingOfFields fs + 1
  | _ => 0

def nestingOfItems : List Json → Nat
  | [] => 0
  | x :: xs => max x.nesting (nestingOfItems xs)

def nestingOfFields : List (String × Json) → Nat
  | [] => 0
  | (_, v) :: fs => max v.nesting (nestingOfFields fs)

end

end Json

class ToJson (α : Type) where
  toJson : α → Json

instance : ToJson Json := ⟨id⟩
instance : ToJson String := ⟨.string⟩
instance : ToJson Bool := ⟨.bool⟩
instance : ToJson Int := ⟨.int⟩
instance : ToJson Nat := ⟨.nat⟩
instance : ToJson UInt32 := ⟨fun n => .nat n.toNat⟩
instance {α : Type} [ToJson α] : ToJson (List α) := ⟨fun xs => .array (xs.map ToJson.toJson)⟩

/-! ### Writing

Strings escape what JSON demands, and `<`, `>`, `&` and the two Unicode line separators. Stray bytes
are written as replacement characters. -/

namespace Json

def escaped (c : Char) : List Char :=
  match c with
  | '"' => ['\\', '"']
  | '\\' => ['\\', '\\']
  | '\n' => ['\\', 'n']
  | '\r' => ['\\', 'r']
  | '\t' => ['\\', 't']
  | c =>
    let n := c.toNat
    if n == 0x08 then ['\\', 'b']
    else if n == 0x0c then ['\\', 'f']
    else if n < 0x20 || n == 0x3c || n == 0x3e || n == 0x26 || n == 0x2028 || n == 0x2029 then
      ("\\u" ++ Text.hexDigits 4 n).toList
    else [c]

def quotedString (s : String) : String :=
  "\"" ++ Text.ofChars ((Text.shown s).toList.flatMap escaped) ++ "\""

mutual

def compress : Json → String
  | .null => "null"
  | .bool true => "true"
  | .bool false => "false"
  | .number s => s
  | .string s => quotedString s
  | .array xs => "[" ++ String.intercalate "," (compressItems xs) ++ "]"
  | .object fs => "\x7b" ++ String.intercalate "," (compressFields fs) ++ "\x7d"

def compressItems : List Json → List String
  | [] => []
  | x :: xs => x.compress :: compressItems xs

def compressFields : List (String × Json) → List String
  | [] => []
  | (k, v) :: fs => (quotedString k ++ ":" ++ v.compress) :: compressFields fs

end

def newline (depth : Nat) : String := "\n" ++ String.join (List.replicate depth "  ")

mutual

def pretty (depth : Nat) : Json → String
  | .array (x :: xs) =>
    "[" ++ newline (depth + 1) ++
      String.intercalate ("," ++ newline (depth + 1)) (prettyItems (depth + 1) (x :: xs)) ++
      newline depth ++ "]"
  | .object (f :: fs) =>
    "\x7b" ++ newline (depth + 1) ++
      String.intercalate ("," ++ newline (depth + 1)) (prettyFields (depth + 1) (f :: fs)) ++
      newline depth ++ "\x7d"
  | .null => "null"
  | .bool true => "true"
  | .bool false => "false"
  | .number s => s
  | .string s => quotedString s
  | .array [] => "[]"
  | .object [] => "\x7b\x7d"

def prettyItems (depth : Nat) : List Json → List String
  | [] => []
  | x :: xs => x.pretty depth :: prettyItems depth xs

def prettyFields (depth : Nat) : List (String × Json) → List String
  | [] => []
  | (k, v) :: fs => (quotedString k ++ ": " ++ v.pretty depth) :: prettyFields depth fs

end

/-! ### Reading records

A field is found by its name, or in another case when no field has that very name. Null leaves what
is there; a value of the wrong type refuses the document. Whole numbers have neither fraction nor
exponent and fit a 64-bit integer. -/

/-- The form in which field names are compared when none matches exactly. Two letters beyond ASCII
fold to ASCII ones. -/
def foldName (s : String) : String :=
  s.map fun c =>
    if c.toNat == 0x17f then 's' else if c.toNat == 0x212a then 'k' else c.toLower

def resolveName? (known : List String) (name : String) : Option String :=
  if known.contains name then some name
  else known.find? fun k => foldName k == foldName name

def decodeText (cur : String) : Json → Option String
  | .null => some cur
  | .string s => some s
  | _ => none

def decodeBool (cur : Bool) : Json → Option Bool
  | .null => some cur
  | .bool b => some b
  | _ => none

def fitsInt64 (n : Int) : Bool := Word.fitsSigned 64 n

def decodeInt (cur : Int) : Json → Option Int
  | .null => some cur
  | j => j.int?.filter fitsInt64

def decodeList {α : Type} (item : Json → Option α) : Json → Option (List α)
  | .null => some []
  | .array xs => xs.mapM item
  | _ => none

def decodeOptional {α : Type} (item : Json → Option α) : Json → Option (Option α)
  | .null => some none
  | j => (item j).map some

/-- Reads a record over `cur`, field by field in document order. Names that are not known are
skipped. -/
def decodeFields {α : Type} (known : List String) (set : α → String → Json → Option α) (cur : α) :
    Json → Option α
  | .null => some cur
  | .object fs =>
    fs.foldlM (fun a (k, v) =>
      match resolveName? known k with
      | some name => set a name v
      | none => some a) cur
  | _ => none

/-! ### Repeated names

An object may hold a name twice, or in several spellings. A record keeps the fields that a later
value does not mention, and the items of a list are read over those that stood in their places, also
beyond a shorter list in between.

`settle` gives the value without repetition that reads like a sequence of values. -/

inductive Shape where
  /-- A value that is read as a whole; null leaves what is there. -/
  | leaf
  /-- A record. Null makes an optional one none and leaves any other as it is. -/
  | record (isOptional : Bool) (names : List String) (field : String → Shape)
  | list (item : Shape)

mutual

/-- Whether an object holds a name twice, in any spelling and at any depth. -/
def isRepeating : Json → Bool
  | .array xs => anyRepeating xs
  | .object fs =>
    let names := fs.map fun (k, _) => foldName k
    names.eraseDups.length != names.length || anyFieldRepeating fs
  | _ => false

def anyRepeating : List Json → Bool
  | [] => false
  | x :: xs => x.isRepeating || anyRepeating xs

def anyFieldRepeating : List (String × Json) → Bool
  | [] => false
  | (_, v) :: fs => v.isRepeating || anyFieldRepeating fs

end

/-- The fields that a sequence of values gives a record, under the names that are known, if there is
a record. -/
def Shape.entries? (isOptional : Bool) (names : List String) (vs : List Json) :
    Option (List (String × Json)) :=
  vs.foldl (fun es v =>
    match v with
    | .null => if isOptional then none else es
    | .object fs => some (es.getD [] ++ fs.filterMap fun (k, v) => (resolveName? names k).map (·, v))
    | _ => es) (if isOptional then none else some [])

/-- Puts the items of a list behind those that stood in their places. -/
def Shape.stack : List (List Json) → List Json → List (List Json)
  | slots, [] => slots
  | [], x :: xs => [x] :: stack [] xs
  | slot :: slots, x :: xs => (slot ++ [x]) :: stack slots xs

/-- The values that each item of a list is read from, if there is a list. -/
def Shape.slots? (vs : List Json) : Option (List (List Json)) :=
  (vs.foldl (fun (s : Option (Nat × List (List Json))) v =>
    match v with
    | .null => none
    | .array [] => some (0, [])
    | .array xs => some (xs.length, stack ((s.map fun (_, slots) => slots).getD []) xs)
    | _ => s) none).map fun (shown, slots) => slots.take shown

/-- The value that reads like a sequence of values. -/
def settle : Shape → List Json → Json
  | .leaf, vs => (vs.reverse.find? fun v => !v.isNull).getD .null
  | .record isOptional names field, vs =>
    match Shape.entries? isOptional names vs with
    | none => .null
    | some es => .object (names.filterMap fun n =>
        match es.filterMap fun (k, v) => if k == n then some v else none with
        | [] => none
        | own => some (n, settle (field n) own))
  | .list item, vs =>
    match Shape.slots? vs with
    | none => .null
    | some slots => .array (slots.map fun own => settle item own)

/-! ### Reading values

The reader accepts exactly the grammar: no comments, trailing commas, leading zeros or control
characters in strings. An escape of half a surrogate pair reads as the replacement character. -/

def isSpace (c : Char) : Bool := c == ' ' || c == '\t' || c == '\n' || c == '\r'

def skipSpace (cs : List Char) : List Char := cs.dropWhile isSpace

def hexUnit? : List Char → Option (Nat × List Char)
  | a :: b :: c :: d :: cs => do
    some ((← Text.number? 16 [a, b, c, d]), cs)
  | _ => none

/-- The low half of a surrogate pair, if the text goes on with its escape. -/
def lowHalf? : List Char → Option (Nat × List Char)
  | '\\' :: 'u' :: cs =>
    match hexUnit? cs with
    | some (n, rest) => if 0xdc00 ≤ n && n < 0xe000 then some (n, rest) else none
    | none => none
  | _ => none

def unitChar (n : Nat) (rest : List Char) : Char × List Char :=
  if 0xd800 ≤ n && n < 0xdc00 then
    match lowHalf? rest with
    | some (low, rest') => (Char.ofNat (0x10000 + (n - 0xd800) * 0x400 + (low - 0xdc00)), rest')
    | none => ('�', rest)
  else if 0xdc00 ≤ n && n < 0xe000 then ('�', rest)
  else (Char.ofNat n, rest)

def simpleEscape? : Char → Option Char
  | '"' => some '"'
  | '\\' => some '\\'
  | '/' => some '/'
  | 'b' => some (Char.ofNat 8)
  | 'f' => some (Char.ofNat 12)
  | 'n' => some '\n'
  | 'r' => some '\r'
  | 't' => some '\t'
  | _ => none

/-- The rest of a string, from behind its opening quote. -/
def stringBody (fuel : Nat) (acc : List Char) (cs : List Char) : Option (String × List Char) :=
  match fuel, cs with
  | 0, _ => none
  | _, [] => none
  | _ + 1, '"' :: rest => some (Text.ofChars acc.reverse, rest)
  | n + 1, '\\' :: 'u' :: rest =>
    match hexUnit? rest with
    | some (u, rest) =>
      let (c, rest) := unitChar u rest
      stringBody n (c :: acc) rest
    | none => none
  | n + 1, '\\' :: e :: rest =>
    match simpleEscape? e with
    | some c => stringBody n (c :: acc) rest
    | none => none
  | n + 1, c :: rest => if c.toNat < 0x20 || c == '\\' then none else stringBody n (c :: acc) rest

def digits1? (cs : List Char) : Option (List Char × List Char) :=
  match cs.takeWhile Char.isDigit with
  | [] => none
  | ds => some (ds, cs.dropWhile Char.isDigit)

def numberLiteral? (cs : List Char) : Option (String × List Char) := do
  let (sign, cs) := match cs with
    | '-' :: cs => (['-'], cs)
    | cs => ([], cs)
  let (whole, cs) ← match cs with
    | '0' :: cs => some (['0'], cs)
    | cs => digits1? cs
  let (frac, cs) ← match cs with
    | '.' :: cs => (digits1? cs).map fun (ds, cs) => ('.' :: ds, cs)
    | cs => some ([], cs)
  let (expo, cs) ← match cs with
    | e :: cs' =>
      if e == 'e' || e == 'E' then
        match cs' with
        | '+' :: cs' => (digits1? cs').map fun (ds, cs') => (e :: '+' :: ds, cs')
        | '-' :: cs' => (digits1? cs').map fun (ds, cs') => (e :: '-' :: ds, cs')
        | cs' => (digits1? cs').map fun (ds, cs') => (e :: ds, cs')
      else some ([], cs)
    | [] => some ([], [])
  some (String.ofList (sign ++ whole ++ frac ++ expo), cs)

mutual

def value (fuel depth : Nat) (cs : List Char) : Option (Json × List Char) :=
  match fuel with
  | 0 => none
  | n + 1 =>
    match skipSpace cs with
    | 'n' :: 'u' :: 'l' :: 'l' :: rest => some (.null, rest)
    | 't' :: 'r' :: 'u' :: 'e' :: rest => some (.bool true, rest)
    | 'f' :: 'a' :: 'l' :: 's' :: 'e' :: rest => some (.bool false, rest)
    | '"' :: rest => (stringBody (rest.length + 1) [] rest).map fun (s, r) => (.string s, r)
    | '[' :: rest =>
      if depth = 0 then none
      else
        match skipSpace rest with
        | ']' :: rest => some (.array [], rest)
        | rest => (itemList n (depth - 1) [] rest).map fun (xs, r) => (.array xs, r)
    | '\x7b' :: rest =>
      if depth = 0 then none
      else
        match skipSpace rest with
        | '\x7d' :: rest => some (.object [], rest)
        | rest => (fieldList n (depth - 1) [] rest).map fun (fs, r) => (.object fs, r)
    | rest => (numberLiteral? rest).map fun (s, r) => (.number s, r)

def itemList (fuel depth : Nat) (acc : List Json) (cs : List Char) :
    Option (List Json × List Char) :=
  match fuel with
  | 0 => none
  | n + 1 =>
    match value n depth cs with
    | none => none
    | some (x, rest) =>
      match skipSpace rest with
      | ',' :: rest => itemList n depth (x :: acc) rest
      | ']' :: rest => some ((x :: acc).reverse, rest)
      | _ => none

def fieldList (fuel depth : Nat) (acc : List (String × Json)) (cs : List Char) :
    Option (List (String × Json) × List Char) :=
  match fuel with
  | 0 => none
  | n + 1 =>
    match skipSpace cs with
    | '"' :: rest =>
      match stringBody (rest.length + 1) [] rest with
      | none => none
      | some (k, rest) =>
        match skipSpace rest with
        | ':' :: rest =>
          match value n depth rest with
          | none => none
          | some (v, rest) =>
            match skipSpace rest with
            | ',' :: rest => fieldList n depth ((k, v) :: acc) rest
            | '\x7d' :: rest => some (((k, v) :: acc).reverse, rest)
            | _ => none
        | _ => none
    | _ => none

end

/-- The first value of a text and what follows it. Every call but the last uses up a character, so
the fuel suffices. -/
def parsePrefix? (cs : List Char) : Option (Json × List Char) :=
  value (2 * cs.length + 2) maxDepth cs

/-- Reads a text that is one value, with blanks around it. Stray bytes read as replacement
characters. -/
def parse? (s : String) : Option Json :=
  match parsePrefix? (Text.shown s).toList with
  | some (v, rest) => if (skipSpace rest).isEmpty then some v else none
  | none => none

end Json

end BytecodeAudit
