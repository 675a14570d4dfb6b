import BytecodeAudit.Decimal
import BytecodeAudit.Time
import BytecodeAudit.Yaml.Token

/-!
# Values of YAML nodes

A plain scalar is null, a truth value, an integer in one of four bases, a floating-point number, a
date or time, or its own text.

A node is expanded into a tree without aliases and merge entries: an alias becomes what it stands
for, and a merge entry gives its mapping the entries of other mappings that it does not have. The
nodes are counted on the way: a tree of which too large a part comes from aliases is refused before
it is built.
-/

namespace BytecodeAudit.Text.Base64

def digit? (c : Char) : Option Nat :=
  if 'A' ≤ c && c ≤ 'Z' then some (c.toNat - 'A'.toNat)
  else if 'a' ≤ c && c ≤ 'z' then some (c.toNat - 'a'.toNat + 26)
  else if c.isDigit then some (c.toNat - '0'.toNat + 52)
  else if c == '+' then some 62
  else if c == '/' then some 63
  else none

def bytesOf (a b c d : Nat) (n : Nat) : List UInt8 :=
  let word := ((a * 64 + b) * 64 + c) * 64 + d
  [UInt8.ofNat (word / 65536), UInt8.ofNat (word / 256), UInt8.ofNat word].take n

def decodeGroups? : List Char → Option (List UInt8)
  | [] => some []
  | [a, b, '=', '='] => do some (bytesOf (← digit? a) (← digit? b) 0 0 1)
  | [a, b, c, '='] => do some (bytesOf (← digit? a) (← digit? b) (← digit? c) 0 2)
  | a :: b :: c :: d :: rest => do
    let bytes := bytesOf (← digit? a) (← digit? b) (← digit? c) (← digit? d) 3
    some (bytes ++ (← decodeGroups? rest))
  | _ => none

def decode? (s : String) : Option (List UInt8) :=
  decodeGroups? (s.toList.filter fun c => c != '\n' && c != '\r')

end BytecodeAudit.Text.Base64

namespace BytecodeAudit.Yaml

inductive ScalarValue where
  | null
  | bool (b : Bool)
  | int (n : Int)
  | float (x : Binary64)
  | time (t : Instant)
  | text (s : String)
deriving DecidableEq, Repr, Inhabited

namespace ScalarValue

def tag : ScalarValue → String
  | .null => tagNull
  | .bool _ => tagBool
  | .int _ => tagInt
  | .float _ => tagFloat
  | .time _ => tagTime
  | .text _ => tagStr

def word? (s : String) : Option ScalarValue :=
  if ["", "~", "null", "Null", "NULL"].contains s then some .null
  else if ["true", "True", "TRUE"].contains s then some (.bool true)
  else if ["false", "False", "FALSE"].contains s then some (.bool false)
  else if [".nan", ".NaN", ".NAN"].contains s then some (.float .notANumber)
  else if [".inf", ".Inf", ".INF", "+.inf", "+.Inf", "+.INF"].contains s then
    some (.float (.infinite false))
  else if ["-.inf", "-.Inf", "-.INF"].contains s then some (.float (.infinite true))
  else none

def magnitude? (cs : List Char) : Option Nat :=
  let (base, digits) := Text.baseOf cs
  Text.number? base digits

def int? (cs : List Char) : Option Int :=
  match cs with
  | '-' :: ds => ((magnitude? ds).filter (· ≤ Word.span 63)).map fun n => -(n : Int)
  | '+' :: ds => ((magnitude? ds).filter (· < Word.span 63)).map Int.ofNat
  | ds => ((magnitude? ds).filter (· < Word.span 64)).map Int.ofNat

def float? (cs : List Char) : Option Binary64 :=
  (Binary64.ofText? (String.ofList cs)).filter fun
    | .finite .. => true
    | _ => false

def shortNumber? (cs : List Char) : Option (Nat × List Char) :=
  let ds := (cs.take 2).takeWhile Char.isDigit
  if ds.isEmpty then none else some (Nat.ofDigitChars 10 ds 0, cs.drop ds.length)

/-- A date, with a time of day behind it if there is one. -/
def time? (cs : List Char) : Option Instant := do
  let year := cs.takeWhile Char.isDigit
  if year.length != 4 then failure
  let rest ← Instant.expect? '-' (cs.drop 4)
  let (month, rest) ← shortNumber? rest
  let rest ← Instant.expect? '-' rest
  let (day, rest) ← shortNumber? rest
  let y := Nat.ofDigitChars 10 year 0
  if month < 1 || 12 < month || day < 1 || Instant.daysInMonth y month < day then failure
  let days := Instant.daysOfDate y month day
  let instant (seconds nanos offset : Int) : Instant :=
    ⟨(days * 86400 + seconds - offset) * Instant.nanosPerSecond + nanos, offset⟩
  match rest with
  | [] => some (instant 0 0 0)
  | mark :: rest =>
    let (hour, rest) ← shortNumber? rest
    let rest ← Instant.expect? ':' rest
    let (minute, rest) ← shortNumber? rest
    let rest ← Instant.expect? ':' rest
    let (second, rest) ← shortNumber? rest
    let (nanos, rest) := Instant.fraction rest
    if 24 ≤ hour || 60 ≤ minute || 60 ≤ second then failure
    let seconds : Int := (hour * 60 + minute : Nat) * 60 + second
    if mark == 'T' || mark == 't' then some (instant seconds nanos (← Instant.offset? rest))
    else if mark == ' ' && rest.isEmpty then some (instant seconds nanos 0)
    else none

def numeric? (cs : List Char) : Option ScalarValue :=
  let plain := cs.filter (· != '_')
  (time? cs).map .time <|> (int? plain).map .int <|> (float? plain).map .float

def ofPlain (s : String) : ScalarValue :=
  match word? s, s.toList with
  | some v, _ => v
  | none, c :: cs =>
    let found :=
      if c.isDigit || c == '+' || c == '-' then numeric? (c :: cs)
      else if c == '.' then (Numeral.parse? s).map .float
      else none
    found.getD (.text s)
  | none, [] => .null

/-- The value of a scalar with a tag, if it fits. Texts fit every unknown tag. Binary data are the
text of the bytes. -/
def ofTagged? (tag s : String) : Option ScalarValue :=
  if tag == tagStr then some (.text s)
  else if tag == tagBinary then (Text.Base64.decode? s).map fun bs => .text (Text.ofBytes bs)
  else if [tagBool, tagInt, tagFloat, tagNull, tagTime].contains tag then
    let v := ofPlain s
    match v with
    | .int n =>
        if tag == tagFloat then if n < Word.span 63 then some (.float (Binary64.ofInt n)) else none
        else if tag == tagInt then some v else none
    | v => if v.tag == tag then some v else none
  else some (.text s)

end ScalarValue

/-- How many nodes were visited, and how many of them inside aliases. -/
structure Tally where
  nodes : Nat := 0
  aliased : Nat := 0
  depth : Nat := 0
deriving Repr, Inhabited

namespace Tally

/-- Up to this many nodes 99 of 100 may come from aliases. -/
def lowRange : Nat := 400000

/-- From this many nodes on one of 10 may come from aliases. -/
def highRange : Nat := 4000000

/-- Whether too many nodes come from aliases. Between the two ranges the part that may do so falls
evenly. -/
def isExcessive (t : Tally) : Bool :=
  100 < t.aliased && 1000 < t.nodes &&
    (if t.nodes ≤ lowRange then 99 * t.nodes < 100 * t.aliased
    else if highRange ≤ t.nodes then t.nodes < 10 * t.aliased
    else
      let range := highRange - lowRange
      (99 * range - 89 * (t.nodes - lowRange)) * t.nodes < 100 * range * t.aliased)

def add (t : Tally) : Tally :=
  { t with nodes := t.nodes + 1, aliased := if t.depth == 0 then t.aliased else t.aliased + 1 }

end Tally

abbrev ExpandM := StateT Tally (Except Fault)

namespace Node

def isMerge : Node → Bool
  | .scalar trim _ "<<" => trim.tag == tagMerge
  | _ => false

def repeatedKey? : List (Node × Node) → Option Node
  | [] => none
  | (k, _) :: rest => if rest.any fun (l, _) => k.sameKey l then some k else repeatedKey? rest

def checkKeys (entries : List (Node × Node)) : ExpandM Unit :=
  match repeatedKey? entries with
  | some k => throw (.repeatedKey k.text)
  | none => pure ()

def visit : ExpandM Unit := do
  let t := (← get).add
  if t.isExcessive then throw .excessiveAliases
  set t

def inAlias {α : Type} (x : ExpandM α) : ExpandM α := do
  modify fun t => { t with depth := t.depth + 1 }
  let a ← x
  modify fun t => { t with depth := t.depth - 1 }
  pure a

/-- A key of a mapping whose own keys are all texts: whatever it looks like, it is a text too. -/
def textKey (k : Node) : Node :=
  k.mapTrim fun t => if t.tag == tagBinary || t.tag == tagNull then t else { t with tag := tagStr }

def isTextKey (k : Node) : Bool := k.trim.tag == tagStr || k.trim.tag == tagMerge

/-- Keeps the keys of a mapping as they are, or makes those that it merges texts if its own ones
are. -/
def mergedEntries (isText : Bool) (entries : List (Node × Node)) : List (Node × Node) :=
  if isText then entries.map fun (k, v) => (k.textKey, v) else entries

mutual

def expandNode : Node → ExpandM Node
  | .scalar trim style text => do
    visit
    pure (.scalar trim style text)
  | .sequence trim isFlow items => do
    visit
    pure (.sequence trim isFlow (← expandItems items))
  | .mapping trim isFlow entries => do
    visit
    checkKeys entries
    let own ← expandEntries [] entries
    if entries.any fun (k, _) => k.isMerge then entries.forM fun _ => visit
    let all ← mergeAll own entries
    pure (.mapping trim isFlow (mergedEntries (entries.all fun (k, _) => k.isTextKey) all))
  | .alias _ _ target => do
    visit
    inAlias (expandNode target)
  | .knot _ _ => throw .misfit
termination_by structural n => n

def expandItems : List Node → ExpandM (List Node)
  | [] => pure []
  | n :: ns => do
    let n ← expandNode n
    pure (n :: (← expandItems ns))
termination_by structural ns => ns

/-- The entries that a mapping has itself and that are not among those `seen` already. -/
def expandEntries (seen : List (Node × Node)) : List (Node × Node) → ExpandM (List (Node × Node))
  | [] => pure []
  | (k, v) :: rest => do
    if k.isMerge then expandEntries seen rest
    else
      let k ← expandNode k
      if seen.any fun (l, _) => l.sameKey k then expandEntries seen rest
      else
        let v ← expandNode v
        pure ((k, v) :: (← expandEntries seen rest))
termination_by structural es => es

/-- Adds to the entries `seen` those that the merge entries of a mapping bring. -/
def mergeAll (seen : List (Node × Node)) : List (Node × Node) → ExpandM (List (Node × Node))
  | [] => pure seen
  | (k, v) :: rest => do
    if k.isMerge then mergeAll (← mergeSource false seen v) rest else mergeAll seen rest
termination_by structural es => es

/-- Adds the entries of the mapping that a merge entry names, or of each in a list of them. -/
def mergeSource (isItem : Bool) (seen : List (Node × Node)) : Node → ExpandM (List (Node × Node))
  | .sequence _ _ items => if isItem then throw .misfit else mergeItems seen items
  | .mapping _ _ entries => do
    visit
    checkKeys entries
    mergeAll (seen ++ (← expandEntries seen entries)) entries
  | .alias _ _ (.mapping _ _ entries) => do
    visit
    inAlias do
      visit
      checkKeys entries
      mergeAll (seen ++ (← expandEntries seen entries)) entries
  | _ => throw .misfit
termination_by structural n => n

def mergeItems (seen : List (Node × Node)) : List Node → ExpandM (List (Node × Node))
  | [] => pure seen
  | n :: ns => do mergeItems (← mergeSource true seen n) ns
termination_by structural ns => ns

end

/-- The tree without aliases and merge entries. The document around it counts as a node. -/
def expand (n : Node) : Except Fault Node := (n.expandNode.run { nodes := 1 }).map (·.1)

def scalarValue (trim : Trim) (text : String) : Except Fault ScalarValue :=
  match ScalarValue.ofTagged? trim.tag text with
  | some v => .ok v
  | none => .error .misfit

def scalarText? (trim : Trim) (text : String) : Except Fault (Option String) := do
  match ← scalarValue trim text with
  | .null => .ok none
  | .text s => .ok (some s)
  | _ => .ok (some text)

end Node

end BytecodeAudit.Yaml
