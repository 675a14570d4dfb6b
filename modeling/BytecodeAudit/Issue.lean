import BytecodeAudit.Failure
import BytecodeAudit.Json.Basic

/-!
# Issues

A diagnostic of an analyzer: a finding if it has a descriptor id, and informational otherwise. With
it comes an inverted call hierarchy: the root is the method that holds a call site, the children of
a node are its callers. A document may leave a gap where a caller should stand; a tree with a gap
cannot be printed.
-/

namespace BytecodeAudit

/-- A line in a source document. Line and column are zero when they are not known. -/
structure Location where
  path : String
  line : Int := 0
  column : Int := 0
deriving DecidableEq, Repr, Inhabited

namespace Location

def display (l : Location) : String :=
  if 0 < l.line then l.path ++ ":" ++ toString l.line else l.path

def displayOption : Option Location → String
  | some l => l.display
  | none => ""

def toJson (l : Location) : Json :=
  .compactFields [("path", some (.string l.path)), ("line", Json.nonzero? l.line),
    ("column", Json.nonzero? l.column)]

instance : ToJson Location := ⟨toJson⟩

def fieldNames : List String := ["path", "line", "column"]

def shape : Json.Shape := .record true fieldNames fun _ => .leaf

def setField (l : Location) (name : String) (v : Json) : Option Location :=
  match name with
  | "path" => (Json.decodeText l.path v).map fun path => { l with path }
  | "line" => (Json.decodeInt l.line v).map fun line => { l with line }
  | "column" => (Json.decodeInt l.column v).map fun column => { l with column }
  | _ => some l

def decode (cur : Option Location) : Json → Option (Option Location)
  | .null => some none
  | j => (Json.decodeFields fieldNames setField (cur.getD ⟨"", 0, 0⟩) j).map some

end Location

inductive CallNode where
  | mk (name typeName methodName moduleName : String) (location : Option Location)
      (children : List CallNode) (truncated : Bool)
  | gap
deriving Inhabited, Repr

namespace CallNode

def named (name : String) : CallNode := .mk name "" "" "" none [] false

def name : CallNode → String
  | .mk n _ _ _ _ _ _ => n
  | .gap => ""

def typeName : CallNode → String
  | .mk _ t _ _ _ _ _ => t
  | .gap => ""

def methodName : CallNode → String
  | .mk _ _ m _ _ _ _ => m
  | .gap => ""

def moduleName : CallNode → String
  | .mk _ _ _ m _ _ _ => m
  | .gap => ""

def location : CallNode → Option Location
  | .mk _ _ _ _ l _ _ => l
  | .gap => none

def children : CallNode → List CallNode
  | .mk _ _ _ _ _ cs _ => cs
  | .gap => []

def truncated : CallNode → Bool
  | .mk _ _ _ _ _ _ t => t
  | .gap => false

def withName (name : String) : CallNode → CallNode
  | .mk _ t m o l cs b => .mk name t m o l cs b
  | .gap => .gap

def withChildren (children : List CallNode) : CallNode → CallNode
  | .mk n t m o l _ b => .mk n t m o l children b
  | .gap => .gap

def withTruncated (truncated : Bool) : CallNode → CallNode
  | .mk n t m o l cs _ => .mk n t m o l cs truncated
  | .gap => .gap

def hasChildren (n : CallNode) : Bool := !n.children.isEmpty

mutual

def depth : CallNode → Nat
  | .mk _ _ _ _ _ cs _ => depthBelow cs
  | .gap => 0

def depthBelow : List CallNode → Nat
  | [] => 0
  | c :: cs => max (c.depth + 1) (depthBelow cs)

end

mutual

def hasGap : CallNode → Bool
  | .mk _ _ _ _ _ cs _ => anyGap cs
  | .gap => true

def anyGap : List CallNode → Bool
  | [] => false
  | c :: cs => c.hasGap || anyGap cs

end

mutual

def toJson : CallNode → Json
  | .mk n t m o l cs b =>
    .compactFields [("name", some (.string n)), ("type", Json.text? t), ("method", Json.text? m),
      ("module", Json.text? o), ("location", l.map Location.toJson),
      ("children", Json.nonempty? (childrenToJson cs)), ("truncated", Json.true? b)]
  | .gap => .null

def childrenToJson : List CallNode → List Json
  | [] => []
  | c :: cs => c.toJson :: childrenToJson cs

end

instance : ToJson CallNode := ⟨toJson⟩

def fieldNames : List String :=
  ["name", "type", "method", "module", "location", "children", "truncated"]

mutual

def decodeOver (cur : CallNode) : Json → Option CallNode
  | .null => some cur
  | .object fs => decodeFields cur fs
  | _ => none

def decodeFields (cur : CallNode) : List (String × Json) → Option CallNode
  | [] => some cur
  | (k, v) :: fs =>
    match cur, Json.resolveName? fieldNames k with
    | .mk n t m o l cs b, some "name" =>
      (Json.decodeText n v).bind fun n => decodeFields (.mk n t m o l cs b) fs
    | .mk n t m o l cs b, some "type" =>
      (Json.decodeText t v).bind fun t => decodeFields (.mk n t m o l cs b) fs
    | .mk n t m o l cs b, some "method" =>
      (Json.decodeText m v).bind fun m => decodeFields (.mk n t m o l cs b) fs
    | .mk n t m o l cs b, some "module" =>
      (Json.decodeText o v).bind fun o => decodeFields (.mk n t m o l cs b) fs
    | .mk n t m o l cs b, some "location" =>
      (Location.decode l v).bind fun l => decodeFields (.mk n t m o l cs b) fs
    | .mk n t m o l _ b, some "children" =>
      (decodeChildren v).bind fun cs => decodeFields (.mk n t m o l cs b) fs
    | .mk n t m o l cs b, some "truncated" =>
      (Json.decodeBool b v).bind fun b => decodeFields (.mk n t m o l cs b) fs
    | cur, _ => decodeFields cur fs

def decodeChildren : Json → Option (List CallNode)
  | .null => some []
  | .array xs => decodeItems xs
  | _ => none

def decodeItems : List Json → Option (List CallNode)
  | [] => some []
  | x :: xs => do
    let c ← if x.isNull then some .gap else decodeOver (named "") x
    let cs ← decodeItems xs
    some (c :: cs)

end

/-- What a node is read as. The fuel bounds the depth. -/
def shape : Nat → Json.Shape
  | 0 => .leaf
  | n + 1 => .record true fieldNames fun
    | "location" => Location.shape
    | "children" => .list (shape n)
    | _ => .leaf

def decode (cur : Option CallNode) : Json → Option (Option CallNode)
  | .null => some none
  | j => (decodeOver (cur.getD (named "")) j).map some

/-! ### Printing

A tree is printed with one line for each node, drawn with branches. -/

def label (n : CallNode) : String :=
  n.name ++
    (match n.location with
    | some l => " (" ++ l.display ++ ")"
    | none => "") ++
    (if n.truncated then " ..." else "")

mutual

/-- The lines below a node, each starting with `indent`. -/
def branches (indent : String) : CallNode → List String
  | .mk _ _ _ _ _ cs _ => branchList indent cs
  | .gap => []

def branchList (indent : String) : List CallNode → List String
  | [] => []
  | [c] => (indent ++ "└── " ++ c.label) :: branches (indent ++ "    ") c
  | c :: d :: cs =>
    (indent ++ "├── " ++ c.label) :: (branches (indent ++ "│   ") c ++ branchList indent (d :: cs))

end

def print (n : CallNode) : String :=
  String.join ((n.name :: branches "" n).map (· ++ "\n"))

def printed : Option CallNode → Except Failure String
  | none => .ok ""
  | some n => if n.hasGap then .error .nullEntry else .ok n.print

end CallNode

/-! ### Severities

Seven labels are known and ordered by rank; the empty one defers to the descriptor; every other
label is carried along and ranks lowest, with the empty one and `hidden`. -/

structure Severity where
  label : String
deriving DecidableEq, Repr, Inhabited

namespace Severity

def default : Severity := ⟨""⟩
def critical : Severity := ⟨"critical"⟩
def major : Severity := ⟨"major"⟩
def moderate : Severity := ⟨"moderate"⟩
def minor : Severity := ⟨"minor"⟩
def info : Severity := ⟨"info"⟩
/-- Shown, but never counted. -/
def muted : Severity := ⟨"none"⟩
/-- Neither shown nor counted. -/
def hidden : Severity := ⟨"hidden"⟩

def known : List Severity := [critical, major, moderate, minor, info, muted, hidden]

def rank (s : Severity) : Nat :=
  if s = critical then 6
  else if s = major then 5
  else if s = moderate then 4
  else if s = minor then 3
  else if s = info then 2
  else if s = muted then 1
  else 0

def isDefault (s : Severity) : Bool := s == default

def isVisible (s : Severity) : Bool := s != hidden

def isCounted (s : Severity) : Bool := s.isVisible && s != muted

def display (s : Severity) : String := if s.isDefault then "default" else s.label

structure UnknownError where
  given : String
deriving DecidableEq, Repr

def UnknownError.message (e : UnknownError) : String :=
  "unknown severity " ++ Text.quoted e.given

def parse (s : String) : Except UnknownError Severity :=
  let v : Severity := ⟨Text.lower (Text.trim s)⟩
  if v.label == "default" || v.label == "" then .ok default
  else if known.contains v then .ok v
  else .error ⟨s⟩

end Severity

/-! ### Diagnostics -/

structure Category where
  name : String
deriving DecidableEq, Repr, Inhabited

namespace Category

def code : Category := ⟨"code"⟩
def assembly : Category := ⟨"assembly"⟩
def settings : Category := ⟨"settings"⟩

instance : ToJson Category := ⟨fun c => .string c.name⟩

end Category

structure Issue where
  category : Category
  severity : Severity := Severity.default
  description : String
  descriptorId : String := ""
  dependencies : Option CallNode := none
  location : Option Location := none
  properties : List String := []
  fixed : Bool := false
deriving Inhabited, Repr

namespace Issue

def isFinding (i : Issue) : Bool := !i.descriptorId.isEmpty

/-- What the filter of a rule is compared with: the method that holds the call site, or else the
path of the document. -/
def context (i : Issue) : String :=
  let path := match i.location with
    | some l => l.path
    | none => ""
  match i.dependencies with
  | some n => if n.name.isEmpty then path else n.name
  | none => path

def property (i : Issue) (index : Int) : String :=
  if index < 0 then "" else i.properties[index.toNat]?.getD ""

def sameFinding (a b : Issue) : Bool :=
  a.category == b.category && a.descriptorId == b.descriptorId &&
    a.description == b.description && a.location == b.location && a.context == b.context

def toJson (i : Issue) : Json :=
  .compactFields [("category", some (.string i.category.name)),
    ("severity", Json.text? i.severity.label), ("description", some (.string i.description)),
    ("descriptor_id", Json.text? i.descriptorId),
    ("dependencies", i.dependencies.map CallNode.toJson),
    ("location", i.location.map Location.toJson),
    ("properties", Json.nonempty? (i.properties.map .string)), ("fixed", Json.true? i.fixed)]

def fieldNames : List String :=
  ["category", "severity", "description", "descriptor_id", "dependencies", "location",
    "properties", "fixed"]

def shape : Json.Shape :=
  .record true fieldNames fun
    | "dependencies" => CallNode.shape Json.maxDepth
    | "location" => Location.shape
    | "properties" => .list .leaf
    | _ => .leaf

def setField (i : Issue) (name : String) (v : Json) : Option Issue :=
  match name with
  | "category" => (Json.decodeText i.category.name v).map fun s => { i with category := ⟨s⟩ }
  | "severity" => (Json.decodeText i.severity.label v).map fun s => { i with severity := ⟨s⟩ }
  | "description" => (Json.decodeText i.description v).map fun s => { i with description := s }
  | "descriptor_id" => (Json.decodeText i.descriptorId v).map fun s => { i with descriptorId := s }
  | "dependencies" =>
    (CallNode.decode i.dependencies v).map fun n => { i with dependencies := n }
  | "location" => (Location.decode i.location v).map fun l => { i with location := l }
  | "properties" =>
    (Json.decodeList (Json.decodeText "") v).map fun ps => { i with properties := ps }
  | "fixed" => (Json.decodeBool i.fixed v).map fun b => { i with fixed := b }
  | _ => some i

def decode (j : Json) : Option Issue :=
  Json.decodeFields fieldNames setField { category := ⟨""⟩, description := "" } j

instance : ToJson Issue := ⟨Issue.toJson⟩

end Issue

end BytecodeAudit
