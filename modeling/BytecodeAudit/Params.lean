import BytecodeAudit.Descriptor.Basic
import BytecodeAudit.Digest

/-!
# Parameters and severity rules

Named integer thresholds of the analyzers. The default layer gives a value to every registered
parameter; further layers override values for one platform each.

A rule overrides the severity of a descriptor, in every context or in one only. A rule set holds at
most one rule for a descriptor and a filter, in the order in which they were added.
-/

namespace BytecodeAudit

abbrev ParamValues := List (String × Int)

def ParamValues.get? (vs : ParamValues) (name : String) : Option Int := (vs.find? (·.1 == name)).map (·.2)

def ParamValues.insert (name : String) (value : Int) (vs : ParamValues) : ParamValues :=
  Text.place name value (fun _ => value) vs

structure ParamLayer where
  platform : Platform
  values : ParamValues := []
deriving DecidableEq, Repr, Inhabited

structure Params where
  defaults : ParamValues := []
  /-- The layers of other platforms, in the order of their creation. -/
  overrides : List ParamLayer := []
  platform : Platform := Platform.default
deriving DecidableEq, Repr, Inhabited

namespace Params

def empty : Params := {}

def layers (s : Params) : List ParamLayer := ⟨Platform.default, s.defaults⟩ :: s.overrides

def override? (s : Params) (p : Platform) : Option ParamLayer :=
  s.overrides.find? (·.platform == p)

def get? (s : Params) (name : String) (p : Platform) : Option Int :=
  let own := if p == Platform.default then none else (s.override? p).bind (·.values.get? name)
  own <|> s.defaults.get? name

def getFor (s : Params) (name : String) (p : Platform) : Except Failure Int :=
  match s.get? name p with
  | some v => .ok v
  | none => .error (.parameterNotRegistered name)

def get (s : Params) (name : String) : Except Failure Int := s.getFor name s.platform

/-- Applies a change to the values of a platform, whose layer is created when it is missing. -/
def updateLayer (change : ParamValues → ParamValues) (p : Platform) :
    List ParamLayer → List ParamLayer
  | [] => [⟨p, change []⟩]
  | l :: ls =>
    if l.platform == p then { l with values := change l.values } :: ls
    else l :: updateLayer change p ls

def update (s : Params) (change : ParamValues → ParamValues) (p : Platform) : Params :=
  if p == Platform.default then { s with defaults := change s.defaults }
  else { s with overrides := updateLayer change p s.overrides }

def set (s : Params) (name : String) (value : Int) (p : Platform) : Params :=
  s.update (ParamValues.insert name value) p

def register (s : Params) (name : String) (value : Int) : Params :=
  if (s.defaults.get? name).isSome then s
  else { s with defaults := ParamValues.insert name value s.defaults }

def names (s : Params) : List String :=
  ((s.layers.flatMap fun l => l.values.map (·.1)).mergeSort (Text.rank · ≤ Text.rank ·)).eraseDups

def addLayer (s : Params) (l : ParamLayer) : Params :=
  s.update (fun vs => l.values.foldl (fun vs (n, v) => ParamValues.insert n v vs) vs)
    (Platform.parse l.platform.name)

def ofLayers (ls : List ParamLayer) : Params := ls.foldl addLayer empty

def clone (s : Params) : Params := { ofLayers s.layers with platform := s.platform }

def fingerprintBytes (s : Params) : List UInt8 :=
  Text.toBytes (String.join (s.layers.map fun l =>
    l.platform.name ++ "\x00" ++
      String.join (l.values.map fun (n, v) => n ++ "=" ++ toString v ++ "\x00")))

def fingerprint (s : Params) : UInt64 := Digest.XxHash.hash s.fingerprintBytes

end Params

namespace ParamLayer

def toJson (l : ParamLayer) : Json :=
  .object [("platform", .string l.platform.name),
    ("params", .array (l.values.map fun (n, v) => .object [("name", .string n), ("value", .int v)]))]

def shape : Json.Shape :=
  .record false ["platform", "params"] fun
    | "params" => .list (.record false ["name", "value"] fun _ => .leaf)
    | _ => .leaf

def decodeValue (j : Json) : Option (String × Int) :=
  Json.decodeFields ["name", "value"]
    (fun (n, v) field j =>
      match field with
      | "name" => (Json.decodeText n j).map (·, v)
      | "value" => (Json.decodeInt v j).map (n, ·)
      | _ => some (n, v))
    ("", 0) j

/-- Reads a flat layer. Its values stay in document order. -/
def decode (j : Json) : Option ParamLayer :=
  Json.decodeFields ["platform", "params"]
    (fun l field j =>
      match field with
      | "platform" => (Json.decodeText l.platform.name j).map fun s => { l with platform := ⟨s⟩ }
      | "params" => (Json.decodeList decodeValue j).map fun vs => { l with values := vs }
      | _ => some l)
    ⟨Platform.default, []⟩ j

end ParamLayer

namespace Params

def toJson (s : Params) : Json := .array (s.layers.map ParamLayer.toJson)

instance : ToJson Params := ⟨toJson⟩

/-- Reads a list of flat layers. Each value must fit its field, also where a later one is read over
it. -/
def decodeLayers (j : Json) : Option (List ParamLayer) := do
  let ls ← Json.decodeList ParamLayer.decode j
  if j.isRepeating then Json.decodeList ParamLayer.decode (Json.settle (.list ParamLayer.shape) [j]) else some ls

def decode (s : Params) (j : Json) : Option Params :=
  (decodeLayers j).map fun ls => { ofLayers ls with platform := s.platform }

end Params

/-! ### Rules -/

/-- An override of a descriptor's severity. The empty filter stands for every context. -/
structure Rule where
  id : String
  filter : String := ""
  severity : Severity
deriving DecidableEq, Repr, Inhabited

namespace Rule

def isFor (r : Rule) (id filter : String) : Bool := r.id == id && r.filter == filter

def toJson (r : Rule) : Json :=
  .compactFields [("id", some (.string r.id)), ("filter", Json.text? r.filter),
    ("severity", some (.string r.severity.label))]

def shape : Json.Shape := .record false ["id", "filter", "severity"] fun _ => .leaf

def decode (j : Json) : Option Rule :=
  Json.decodeFields ["id", "filter", "severity"]
    (fun r field j =>
      match field with
      | "id" => (Json.decodeText r.id j).map fun s => { r with id := s }
      | "filter" => (Json.decodeText r.filter j).map fun s => { r with filter := s }
      | "severity" => (Json.decodeText r.severity.label j).map fun s => { r with severity := ⟨s⟩ }
      | _ => some r)
    { id := "", severity := Severity.default } j

end Rule

structure RuleSet where
  rules : List Rule := []
deriving DecidableEq, Repr, Inhabited

instance : ToJson Rule := ⟨Rule.toJson⟩

namespace RuleSet

def empty : RuleSet := {}

def size (s : RuleSet) : Nat := s.rules.length

def get? (s : RuleSet) (id filter : String) : Option Rule := s.rules.find? (·.isFor id filter)

def upsert (r : Rule) : List Rule → List Rule
  | [] => [r]
  | x :: xs => if x.isFor r.id r.filter then { x with severity := r.severity } :: xs else x :: upsert r xs

def set (s : RuleSet) (r : Rule) : RuleSet := ⟨upsert r s.rules⟩

def clearAll (s : RuleSet) (id : String) : RuleSet := ⟨s.rules.filter fun x => !(x.id == id)⟩

def clear (s : RuleSet) (id filter : String) : RuleSet :=
  ⟨s.rules.filter fun x => !(x.isFor id filter)⟩

/-- Adds a rule. One without a filter replaces every other rule of its id. -/
def add (s : RuleSet) (r : Rule) : RuleSet :=
  if r.filter == "" then ⟨(s.clearAll r.id).rules ++ [r]⟩ else s.set r

def ofList (rs : List Rule) : RuleSet := rs.foldl add empty

/-- The severity that the rules give to a descriptor in a context: the rule for this very context
comes before that for all. -/
def severity? (s : RuleSet) (id context : String) : Option Severity :=
  let exact := if context == "" then none else s.get? id context
  (exact <|> s.get? id "").map (·.severity)

def toJson (s : RuleSet) : Json := Json.arrayOrNull (s.rules.map Rule.toJson)

def decode (j : Json) : Option RuleSet := (Json.decodeList Rule.decode j).map ofList

end RuleSet

/-- What decides the severity of an issue: rules and descriptors, each of which may be missing. -/
structure SeverityPolicy where
  rules : Option RuleSet := none
  catalog : Option Catalog := none

namespace SeverityPolicy

def ruled? (p : SeverityPolicy) (id context : String) : Option Severity :=
  p.rules.bind (·.severity? id context)

def declared (p : SeverityPolicy) (id : String) : Severity :=
  match p.catalog.bind (·.get? id) with
  | some d => d.defaultSeverity
  | none => Severity.default

def severity (p : SeverityPolicy) (id context : String) : Severity :=
  (p.ruled? id context).getD (p.declared id)

/-- The severity an issue is shown with: that of rules, or else its own, or else that of the
descriptor, if there is one. -/
def effective (p : SeverityPolicy) (i : Issue) : Severity :=
  if !i.isFinding then i.severity
  else
    match p.ruled? i.descriptorId i.context with
    | some s => s
    | none => if i.severity.isDefault then p.severity i.descriptorId "" else i.severity

end SeverityPolicy

end BytecodeAudit
