import BytecodeAudit.Decimal
import BytecodeAudit.Json.Basic
import BytecodeAudit.Time

/-!
# Settings

The values of a settings document in any format, and how they are read: by a dotted key, as a
number, a truth value or a text. A value that does not read as asked reads as zero, false or the
text it is displayed with.
-/

namespace BytecodeAudit

/-- A value of a settings document. A table has at most one value for a name. -/
inductive Setting where
  | null
  | bool (b : Bool)
  | int (n : Int)
  | float (x : Binary64)
  | time (t : Instant)
  /-- A date, a time of day or both, without an offset, as it is displayed. -/
  | civil (s : String)
  | text (s : String)
  | list (items : List Setting)
  | table (fields : List (String × Setting))
  | dictionary (entries : List (Setting × Setting))
deriving Repr, Inhabited

namespace Setting

def fields : Setting → List (String × Setting)
  | .table fs => fs
  | _ => []

def isNull : Setting → Bool
  | .null => true
  | _ => false

/-- Gives a name a value: over the one it has, or behind the others. -/
def insertField (name : String) (value : Setting) : List (String × Setting) → List (String × Setting)
  | [] => [(name, value)]
  | (n, v) :: fs => if n == name then (n, value) :: fs else (n, v) :: insertField name value fs

/-! ### Display -/

def keyRank : Setting → Nat
  | .null => 0
  | .int n => if n < Word.span 63 then 2 else 1
  | .float _ => 3
  | .bool _ => 4
  | .text _ => 5
  | _ => 6

/-- Whether a key is displayed before another one or is equal to it. -/
def keyLe : Setting → Setting → Bool
  | .int a, .int b => if keyRank (.int a) == keyRank (.int b) then a ≤ b else keyRank (.int a) ≤ keyRank (.int b)
  | .float a, .float b => a.le b
  | .bool a, .bool b => !a || b
  | .text a, .text b => Text.rank a ≤ Text.rank b
  | .time a, .time b =>
    let second (t : Instant) : Int := Int.fdiv t.nanos Instant.nanosPerSecond
    let fraction (t : Instant) : Int := Int.fmod t.nanos Instant.nanosPerSecond
    if fraction a == fraction b then second a ≤ second b else fraction a < fraction b
  | a, b => a.keyRank ≤ b.keyRank

mutual

def display : Setting → String
  | .null => "<nil>"
  | .bool b => if b then "true" else "false"
  | .int n => toString n
  | .float x => x.display
  | .time t => t.display
  | .civil s => s
  | .text s => s
  | .list xs => "[" ++ String.intercalate " " (displayItems xs) ++ "]"
  | .table fs =>
    "map[" ++ String.intercalate " "
      (((displayFields fs).mergeSort fun a b => Text.rank a.1 ≤ Text.rank b.1).map fun (k, v) => k ++ ":" ++ v) ++ "]"
  | .dictionary es =>
    "map[" ++ String.intercalate " "
      (((displayEntries es).mergeSort fun a b => keyLe a.1 b.1).map fun (_, e) => e) ++ "]"

def displayItems : List Setting → List String
  | [] => []
  | x :: xs => x.display :: displayItems xs

def displayFields : List (String × Setting) → List (String × String)
  | [] => []
  | (k, v) :: fs => (k, v.display) :: displayFields fs

def displayEntries : List (Setting × Setting) → List (Setting × String)
  | [] => []
  | (k, v) :: es => (k, k.display ++ ":" ++ v.display) :: displayEntries es

end

/-! ### Names -/

mutual

/-- A value in which keys are the texts that they are displayed with. A list inside a list is left
as it is. -/
def named : Setting → Setting
  | .list xs => .list (namedItems xs)
  | .table fs => .table (namedFields fs)
  | .dictionary es => .table (namedEntries es)
  | v => v

def namedItems : List Setting → List Setting
  | [] => []
  | .list ys :: xs => .list ys :: namedItems xs
  | x :: xs => named x :: namedItems xs

def namedFields : List (String × Setting) → List (String × Setting)
  | [] => []
  | (k, v) :: fs => (k, named v) :: namedFields fs

/-- Of entries with one name the last counts. -/
def namedEntries : List (Setting × Setting) → List (String × Setting)
  | [] => []
  | (k, v) :: es =>
    let fs := namedEntries es
    if fs.any fun (n, _) => n == k.display then fs else (k.display, named v) :: fs

end

mutual

/-- The value of a dotted key: that of a field, or of a field inside one whose name starts the
key. -/
def find? (s : Setting) (key : String) : Option Setting :=
  match s with
  | .table fs => findIn? fs key
  | _ => none

def findIn? : List (String × Setting) → String → Option Setting
  | [], _ => none
  | (n, v) :: fs, key =>
    if n == key then some v
    else
      let inside :=
        if key.startsWith (n ++ ".") then v.find? (key.drop (n.length + 1)).toString else none
      inside <|> findIn? fs key

end

/-- The number that an integer of 64 bits holds after a conversion that does not fit. -/
def outOfRange : Int := -(Word.span 63 : Int)

def truncate (x : Binary64) : Int :=
  match x.truncate? with
  | some n => if Word.fitsSigned 64 n then n else outOfRange
  | none => outOfRange

/-- A value as an integer of 64 bits. Values that are no numbers are read from their text. -/
def toInt (v : Setting) : Int :=
  match v with
  | .null => 0
  | .int n => if Word.fitsSigned 64 n then n else outOfRange
  | .float x => truncate x
  | v => ((Numeral.parse? v.display).map truncate).getD 0

def toBool (v : Setting) : Bool :=
  match v with
  | .bool b => b
  | .null => false
  | v => ["1", "t", "T", "true", "TRUE", "True"].contains v.display

def toText (v : Setting) : String :=
  match v with
  | .null => ""
  | v => v.display

/-! ### Reading records

A field is found by its name, or in another case when no field has that very name. Null leaves what
is there. Scalars are converted into one another, and a value where a list is expected is a list of
it. -/

def decodeText (cur : String) : Setting → Option String
  | .null => some cur
  | .text s => some s
  | .bool b => some (if b then "1" else "0")
  | .int n => some (toString n)
  | .float (.finite negative significand exponent) =>
    let digits := Binary64.shortest significand exponent
    let text := if digits.digits.isEmpty then "0" else digits.positional
    some (if negative then "-" ++ text else text)
  | .float x => some x.display
  | .time _ | .civil _ | .list _ | .table _ | .dictionary _ => none

/-- Digits with the mark of their base. Underscores stand between digits; the mark of a base counts
as one. -/
def magnitude? (cs : List Char) : Option Nat :=
  let (base, body) := Text.baseOf cs
  if !Numeral.underscoresFit Char.isAlphanum true body || (base == 10 && body.head? == some '_') then none
  else Text.number? base (body.filter (· != '_'))

def signed (s : String) : Bool × List Char :=
  let (sign, cs) := Text.splitSign s.toList
  (sign == some '-', cs)

/-- Whether the digits of a number pass 64 bits before a character that is no digit. -/
def passesWord (base value : Nat) : List Char → Bool
  | [] => Word.span 64 ≤ value
  | c :: cs =>
    Word.span 64 ≤ value ||
      if c == '_' then passesWord base value cs
      else
        match Text.digit? base c with
        | some d => passesWord base (value * base + d) cs
        | none => false

/-- Whether a text would be an integer, were it not too large for 64 bits. -/
def isTooLarge (s : String) : Bool :=
  let (isNegative, cs) := signed s
  let (base, body) := Text.baseOf cs
  passesWord base 0 body ||
    match magnitude? cs with
    | some n => !Json.fitsInt64 (if isNegative then -(n : Int) else n)
    | none => false

def intOfText? (s : String) : Option Int := do
  let (isNegative, cs) := signed s
  if s == "" then some 0
  else
    let n ← magnitude? cs
    let v : Int := if isNegative then -(n : Int) else n
    if Json.fitsInt64 v then some v else none

def decodeInt (cur : Int) : Setting → Option Int
  | .null => some cur
  | .int n => some (if Word.span 63 ≤ n then n - Word.span 64 else n)
  | .float x => some (truncate x)
  | .bool b => some (if b then 1 else 0)
  | .text s => intOfText? s
  | .time _ | .civil _ | .list _ | .table _ | .dictionary _ => none

def decodeBool (cur : Bool) : Setting → Option Bool
  | .null => some cur
  | .bool b => some b
  | .int n => some (n != 0)
  | .float x => some (!x.isZero)
  | .text s =>
    if ["1", "t", "T", "TRUE", "true", "True"].contains s then some true
    else if ["", "0", "f", "F", "FALSE", "false", "False"].contains s then some false
    else none
  | .time _ | .civil _ | .list _ | .table _ | .dictionary _ => none

def decodeItems {α : Type} (item : α → Setting → Option α) (fresh : α) :
    List α → List Setting → Option (List α)
  | _, [] => some []
  | [], v :: vs => do
    let x ← item fresh v
    some (x :: (← decodeItems item fresh [] vs))
  | cur :: curs, v :: vs => do
    let x ← item cur v
    some (x :: (← decodeItems item fresh curs vs))

def decodeList {α : Type} (item : α → Setting → Option α) (fresh : α) (cur : List α) :
    Setting → Option (List α)
  | .null => some cur
  | .list vs => decodeItems item fresh cur vs
  | .table [] => some []
  | v => decodeItems item fresh cur [v]

def decodeTexts (cur : List String) (v : Setting) : Option (List String) :=
  decodeList decodeText "" cur v

def fieldNamed? (name : String) (fs : List (String × Setting)) : Option Setting :=
  fs.lookup name <|> (fs.find? fun (k, _) => Json.foldName k == Json.foldName name).map (·.2)

def recordFields? : Setting → Option (List (String × Setting))
  | .null | .time _ | .civil _ => some []
  | .table fs => some fs
  | .dictionary es => some (es.filterMap fun
    | (.text k, v) => some (k, v)
    | _ => none)
  | _ => none

def decodeFields {α : Type} (fields : List (String × (α → Setting → Option α))) (cur : α) (v : Setting) :
    Option α := do
  let fs ← v.recordFields?
  fields.foldlM (fun a (name, set) =>
    match fieldNamed? name fs with
    | some v => set a v
    | none => some a) cur

end Setting

end BytecodeAudit
