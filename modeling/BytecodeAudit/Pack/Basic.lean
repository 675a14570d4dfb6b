import BytecodeAudit.Text.Basic

/-!
# Packed values

The values of the binary format of module and symbol files: numbers, byte sequences, lists and maps,
each led by a header byte. A number can be written in a fixed width or in the fewest bytes; reading
forgets the width.
-/

namespace BytecodeAudit

inductive PackWidth where
  | shortest
  | word32
  | word64
deriving DecidableEq, Repr, Inhabited

inductive Pack where
  | nil
  | bool (b : Bool)
  | int (n : Int) (width : PackWidth)
  | bytes (bs : List UInt8)
  /-- A byte sequence that is written as no text. Reading tells it from text no more. -/
  | blob (bs : List UInt8)
  | array (items : List Pack)
  | map (entries : List (Pack × Pack))
  /-- Bytes under a tag that tells what they stand for. -/
  | tagged (tag : UInt8) (bs : List UInt8)
  /-- A map or nil behind the header of tagged bytes, which is passed over. -/
  | led (value : Pack)
  /-- A value of another kind, which is only ever skipped. -/
  | foreign
deriving Inhabited, Repr

namespace Pack

def text (s : String) : Pack := .bytes (Text.toBytes s)

def isText (s : String) : Pack → Bool
  | .bytes bs | .blob bs => bs == Text.toBytes s
  | _ => false

def small (n : Int) : Pack := .int n .shortest

def word (n : UInt32) : Pack := .int n.toNat .word32

def long (n : Int) : Pack := .int n .word64

def record (fs : List (String × Option Pack)) : Pack :=
  .map (fs.filterMap fun (k, v) => v.map (text k, ·))

def text? (s : String) : Option Pack := if s.isEmpty then none else some (text s)

def true? (b : Bool) : Option Pack := if b then some (.bool true) else none

def nonempty? (xs : List Pack) : Option Pack := if xs.isEmpty then none else some (.array xs)

mutual

def depth : Pack → Nat
  | .array xs => depthOfItems xs + 1
  | .map es => depthOfEntries es + 1
  | .led p => p.depth
  | _ => 1

def depthOfItems : List Pack → Nat
  | [] => 0
  | x :: xs => max x.depth (depthOfItems xs)

def depthOfEntries : List (Pack × Pack) → Nat
  | [] => 0
  | (k, v) :: es => max (max k.depth v.depth) (depthOfEntries es)

end

/-! ### Writing

The header byte tells the kind, and the size of short values. Longer sizes and numbers follow in
big-endian order, in the narrowest width. -/

def bigEndian : Nat → Nat → List UInt8
  | 0, _ => []
  | n + 1, x => UInt8.ofNat (x / Nat.pow 256 n) :: bigEndian n x

def headed (tag : UInt8) (width x : Nat) : List UInt8 := tag :: bigEndian width x

def complement (bits : Nat) (n : Int) : Nat := Word.unsigned bits n

def writeShortest (n : Int) : List UInt8 :=
  if 0 ≤ n then
    let x := n.toNat
    if x < 0x80 then [UInt8.ofNat x]
    else if x < 0x100 then headed 0xcc 1 x
    else if x < 0x10000 then headed 0xcd 2 x
    else if x < 0x100000000 then headed 0xce 4 x
    else headed 0xcf 8 x
  else if -0x20 ≤ n then [UInt8.ofNat (complement 8 n)]
  else if -0x80 ≤ n then headed 0xd0 1 (complement 8 n)
  else if -0x8000 ≤ n then headed 0xd1 2 (complement 16 n)
  else if -0x80000000 ≤ n then headed 0xd2 4 (complement 32 n)
  else headed 0xd3 8 (complement 64 n)

def writeInt (n : Int) : PackWidth → List UInt8
  | .shortest => writeShortest n
  | .word32 => headed 0xce 4 (complement 32 n)
  | .word64 => headed 0xd3 8 (complement 64 n)

def textHeader (size : Nat) : List UInt8 :=
  if size < 0x20 then [UInt8.ofNat (0xa0 + size)]
  else if size < 0x100 then headed 0xd9 1 size
  else if size < 0x10000 then headed 0xda 2 size
  else headed 0xdb 4 size

def blobHeader (size : Nat) : List UInt8 :=
  if size < 0x100 then headed 0xc4 1 size
  else if size < 0x10000 then headed 0xc5 2 size
  else headed 0xc6 4 size

def tagHeader (size : Nat) : List UInt8 :=
  match size with
  | 1 => [0xd4]
  | 2 => [0xd5]
  | 4 => [0xd6]
  | 8 => [0xd7]
  | 16 => [0xd8]
  | n => if n < 0x100 then headed 0xc7 1 n else if n < 0x10000 then headed 0xc8 2 n else headed 0xc9 4 n

def arrayHeader (size : Nat) : List UInt8 :=
  if size < 0x10 then [UInt8.ofNat (0x90 + size)]
  else if size < 0x10000 then headed 0xdc 2 size
  else headed 0xdd 4 size

def mapHeader (size : Nat) : List UInt8 :=
  if size < 0x10 then [UInt8.ofNat (0x80 + size)]
  else if size < 0x10000 then headed 0xde 2 size
  else headed 0xdf 4 size

mutual

def write : Pack → List UInt8
  | .nil => [0xc0]
  | .bool false => [0xc2]
  | .bool true => [0xc3]
  | .int n width => writeInt n width
  | .bytes bs => textHeader bs.length ++ bs
  | .blob bs => blobHeader bs.length ++ bs
  | .tagged tag bs => tagHeader bs.length ++ tag :: bs
  | .array xs => arrayHeader xs.length ++ writeItems xs
  | .map es => mapHeader es.length ++ writeEntries es
  | .led p => 0xd4 :: 0 :: p.write
  | .foreign => [0xca, 0, 0, 0, 0]

def writeItems : List Pack → List UInt8
  | [] => []
  | x :: xs => x.write ++ writeItems xs

def writeEntries : List (Pack × Pack) → List UInt8
  | [] => []
  | (k, v) :: es => k.write ++ (v.write ++ writeEntries es)

end

/-! ### Reading records

A record is a map from field names, or a list with one item for each field in order; nil and the
empty list stand for the record without content. Unknown fields are skipped, and a field that comes
twice is read over the first. -/

def decodeText : Pack → Option String
  | .nil => some ""
  | .bytes bs | .blob bs => some (Text.ofBytes bs)
  | _ => none

def decodeBytes : Pack → Option (List UInt8)
  | .nil => some []
  | .bytes bs | .blob bs => some bs
  | _ => none

def decodeBool : Pack → Option Bool
  | .nil => some false
  | .bool b => some b
  | _ => none

def decodeWord : Pack → Option UInt32
  | .nil => some 0
  | .int n _ => some (UInt32.ofNat (Word.unsigned 32 n))
  | _ => none

def decodeLong : Pack → Option Int
  | .nil => some 0
  | .int n _ => some (Word.signed 64 n)
  | _ => none

def decodeItems {α : Type} (empty : α) (item : α → Pack → Option α) :
    List α → List Pack → Option (List α)
  | _, [] => some []
  | cur, x :: xs => do
    let y ← item (cur.head?.getD empty) x
    let ys ← decodeItems empty item cur.tail xs
    some (y :: ys)

def decodeList {α : Type} (empty : α) (item : α → Pack → Option α) (cur : List α) :
    Pack → Option (Option (List α))
  | .nil => some none
  | .array xs => (decodeItems empty item cur xs).map some
  | _ => none

def decodeTexts (cur : List String) : Pack → Option (List String)
  | .nil => some cur
  | .array xs => xs.mapM decodeText
  | _ => none

def decodeOption {α : Type} (empty : α) (item : α → Pack → Option α) (cur : Option α) :
    Pack → Option (Option α)
  | .nil => some none
  | p => (item (cur.getD empty) p).map some

/-- Reads a record over `cur`. The fields are set one after another by `set`. -/
def decodeRecord {α : Type} (fields : List String) (set : α → String → Pack → Option α)
    (empty cur : α) : Pack → Option α
  | .nil => some empty
  | .map es =>
    es.foldlM (fun a (k, v) => do
      let name ← decodeText k
      if fields.contains name then set a name v else some a) cur
  | .array xs =>
    if xs.isEmpty then some empty
    else if xs.length = fields.length then
      (fields.zip xs).foldlM (fun a (name, v) => set a name v) cur
    else none
  | _ => none

/-! ### Repeated names

The items of a list are read over those that stood in their places, also beyond a shorter list in
between.

`settle` gives the value without repeated lists and records that reads like a sequence of values. -/

inductive Shape where
  | leaf
  | record (names : List String) (field : String → Shape)
  | list (item : Shape)

def Shape.isLeaf : Shape → Bool
  | .leaf => true
  | _ => false

mutual

/-- Whether a map holds a text key twice, at any depth. -/
def isRepeating : Pack → Bool
  | .array xs => anyRepeating xs
  | .map es =>
    let names := es.filterMap fun (k, _) => decodeText k
    names.eraseDups.length != names.length || anyEntryRepeating es
  | .led p => p.isRepeating
  | _ => false

def anyRepeating : List Pack → Bool
  | [] => false
  | x :: xs => x.isRepeating || anyRepeating xs

def anyEntryRepeating : List (Pack × Pack) → Bool
  | [] => false
  | (_, v) :: es => v.isRepeating || anyEntryRepeating es

end

def Shape.entries? (names : List String) (vs : List Pack) : Option (List (Pack × Pack)) :=
  vs.foldl (fun es v =>
    match v with
    | .map fs => some (es.getD [] ++ fs)
    | .array [] => some []
    | .array xs => some (es.getD [] ++ (names.map text).zip xs)
    | _ => none) none

def Shape.stack : List (List Pack) → List Pack → List (List Pack)
  | slots, [] => slots
  | [], x :: xs => [x] :: stack [] xs
  | slot :: slots, x :: xs => (slot ++ [x]) :: stack slots xs

def Shape.slots? (vs : List Pack) : Option (List (List Pack)) :=
  (vs.foldl (fun (s : Option (Nat × List (List Pack))) v =>
    match v with
    | .array xs => some (xs.length, stack ((s.map fun (_, slots) => slots).getD []) xs)
    | _ => none) none).map fun (shown, slots) => slots.take shown

def settle : Shape → List Pack → Pack
  | .leaf, vs => vs.getLast?.getD .nil
  | .record names field, vs =>
    match Shape.entries? names vs with
    | none => .nil
    | some es => .map (names.flatMap fun n =>
        match es.filter fun (k, _) => decodeText k == some n with
        | [] => []
        | own =>
          if (field n).isLeaf then own
          else [(text n, settle (field n) (own.map fun (_, v) => v))])
  | .list item, vs =>
    match Shape.slots? vs with
    | none => .nil
    | some slots => .array (slots.map fun own => settle item own)

/-! ### Reading values

A value is read from the front of a byte sequence. Every header of the format is understood, also
those of values that are only skipped. -/

inductive Head where
  | value (v : Pack)
  | bytes (size : Nat)
  | array (size : Nat)
  | map (size : Nat)
  | tagged (size : Nat)
  | foreign (size : Nat)

def splitBytes? (n : Nat) (bs : List UInt8) : Option (List UInt8 × List UInt8) :=
  let front := bs.take n
  if front.length = n then some (front, bs.drop n) else none

def ofBigEndian (bs : List UInt8) : Nat := bs.foldl (fun acc b => acc * 256 + b.toNat) 0

def ofComplement (bits x : Nat) : Int := if x < Word.span (bits - 1) then x else (x : Int) - Word.span bits

def number? (width : Nat) (bs : List UInt8) : Option (Nat × List UInt8) :=
  (splitBytes? width bs).map fun (front, rest) => (ofBigEndian front, rest)

/-- A header whose number of `width` bytes is handed to `f`. -/
def sized? (width : Nat) (f : Nat → Head) (bs : List UInt8) : Option (Head × List UInt8) :=
  (number? width bs).map fun (n, rest) => (f n, rest)

def unsigned (n : Nat) : Head := .value (.int n .shortest)

def signed (bits n : Nat) : Head := .value (.int (ofComplement bits n) .shortest)

/-- The header at the front. One header byte has no meaning. -/
def head? : List UInt8 → Option (Head × List UInt8)
  | [] => none
  | b :: bs =>
    let c := b.toNat
    if c < 0x80 then some (.value (.int c .shortest), bs)
    else if c < 0x90 then some (.map (c - 0x80), bs)
    else if c < 0xa0 then some (.array (c - 0x90), bs)
    else if c < 0xc0 then some (.bytes (c - 0xa0), bs)
    else if 0xe0 ≤ c then some (.value (.int ((c : Int) - 0x100) .shortest), bs)
    else
      match c with
      | 0xc0 => some (.value .nil, bs)
      | 0xc2 => some (.value (.bool false), bs)
      | 0xc3 => some (.value (.bool true), bs)
      | 0xc4 => sized? 1 .bytes bs
      | 0xc5 => sized? 2 .bytes bs
      | 0xc6 => sized? 4 .bytes bs
      | 0xc7 => sized? 1 .tagged bs
      | 0xc8 => sized? 2 .tagged bs
      | 0xc9 => sized? 4 .tagged bs
      | 0xca => some (.foreign 4, bs)
      | 0xcb => some (.foreign 8, bs)
      | 0xcc => sized? 1 unsigned bs
      | 0xcd => sized? 2 unsigned bs
      | 0xce => sized? 4 unsigned bs
      | 0xcf => sized? 8 unsigned bs
      | 0xd0 => sized? 1 (signed 8) bs
      | 0xd1 => sized? 2 (signed 16) bs
      | 0xd2 => sized? 4 (signed 32) bs
      | 0xd3 => sized? 8 (signed 64) bs
      | 0xd4 => some (.tagged 1, bs)
      | 0xd5 => some (.tagged 2, bs)
      | 0xd6 => some (.tagged 4, bs)
      | 0xd7 => some (.tagged 8, bs)
      | 0xd8 => some (.tagged 16, bs)
      | 0xd9 => sized? 1 .bytes bs
      | 0xda => sized? 2 .bytes bs
      | 0xdb => sized? 4 .bytes bs
      | 0xdc => sized? 2 .array bs
      | 0xdd => sized? 4 .array bs
      | 0xde => sized? 2 .map bs
      | 0xdf => sized? 4 .map bs
      | _ => none

/-- The way to a field through records: its name in each, and its place where the record is a
list. -/
abbrev FieldPath := List (String × Nat)

mutual

/-- Reads a value; `path` leads to a map that may stand behind another header. -/
def readValue (path : FieldPath) : Nat → List UInt8 → Option (Pack × List UInt8)
  | 0, _ => none
  | fuel + 1, bs =>
    match head? bs with
    | none => none
    | some (.value v, rest) => some (v, rest)
    | some (.bytes n, rest) => (splitBytes? n rest).map fun (x, rest) => (.bytes x, rest)
    | some (.tagged n, tag :: rest) => (splitBytes? n rest).map fun (x, rest) => (.tagged tag x, rest)
    | some (.tagged _, []) => none
    | some (.foreign n, rest) => (splitBytes? n rest).map fun (_, rest) => (.foreign, rest)
    | some (.array n, rest) => (readItems path 0 fuel n rest).map fun (xs, rest) => (.array xs, rest)
    | some (.map n, rest) => (readEntries path fuel n rest).map fun (es, rest) => (.map es, rest)

def readItems (path : FieldPath) (index : Nat) : Nat → Nat → List UInt8 → Option (List Pack × List UInt8)
  | _, 0, bs => some ([], bs)
  | 0, _ + 1, _ => none
  | fuel + 1, n + 1, bs => do
    let (x, rest) ←
      match path with
      | (_, place) :: inner => readField (place == index) inner fuel bs
      | [] => readField false [] fuel bs
    let (xs, rest) ← readItems path (index + 1) fuel n rest
    some (x :: xs, rest)

def readEntries (path : FieldPath) : Nat → Nat → List UInt8 → Option (List (Pack × Pack) × List UInt8)
  | _, 0, bs => some ([], bs)
  | 0, _ + 1, _ => none
  | fuel + 1, n + 1, bs => do
    let (k, rest) ← readValue [] fuel bs
    let (v, rest) ←
      match path with
      | (name, _) :: inner => readField (k.isText name) inner fuel rest
      | [] => readField false [] fuel rest
    let (es, rest) ← readEntries path fuel n rest
    some ((k, v) :: es, rest)

def readField (isOnPath : Bool) (path : FieldPath) : Nat → List UInt8 → Option (Pack × List UInt8)
  | 0, _ => none
  | fuel + 1, bs =>
    match isOnPath, path, head? bs with
    | true, [], some (.tagged _, _ :: rest) =>
      match head? rest with
      | some (.map n, rest) => (readEntries [] fuel n rest).map fun (es, rest) => (.led (.map es), rest)
      | some (.value .nil, rest) => some (.led .nil, rest)
      | _ => none
    | true, path, _ => readValue path fuel bs
    | false, _, _ => readValue [] fuel bs

end

/-- Reads a value from the front of a byte sequence. Every value takes at least a byte and three
steps, so the fuel suffices. -/
def read? (bs : List UInt8) (path : FieldPath := []) : Option (Pack × List UInt8) :=
  readValue path (3 * bs.length + 3) bs

end Pack

end BytecodeAudit
