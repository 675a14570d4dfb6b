import BytecodeAudit.Bytecode.Codec
import BytecodeAudit.Params
import BytecodeAudit.Time

/-!
# Reports

The result of an analysis session: its issues in the order in which they were added, the runs of the
analyzers, and the descriptors, parameters and rules that give the issues their meaning. Issues
never change but for being marked as fixed.

A report is written as a JSON document.
-/

namespace BytecodeAudit

/-! ### Sessions and analyzer runs

Times keep the distance from universal time they were read with; one of a day or more, or a year
without four digits, cannot be written. -/

def Instant.decode (cur : Instant) : Json → Option Instant
  | .null => some cur
  | .string s => Instant.parse? s
  | _ => none

/-- Why an instant cannot be written, if it cannot. -/
def Instant.fault? (t : Instant) : Option Failure :=
  if t.localYear < 0 || 9999 < t.localYear then some (.unwritableTime "year" "[0,9999]")
  else if 24 * 3600 ≤ t.offset.natAbs then some (.unwritableTime "timezone hour" "[0,23]")
  else none

def Instant.toJson (t : Instant) : Json := .string t.text

structure Session where
  toolVersion : String := ""
  hostname : String := ""
  os : String := ""
  arch : String := ""
  platform : Platform := Platform.default
  runtimeVersion : String := ""
  revision : String := ""
  timestamp : Instant := Instant.unset
deriving DecidableEq, Repr, Inhabited

namespace Session

def toJson (s : Session) : Json :=
  .compactFields [("tool_version", some (.string s.toolVersion)), ("hostname", Json.text? s.hostname),
    ("os", some (.string s.os)), ("arch", some (.string s.arch)),
    ("platform", Json.text? s.platform.name), ("runtime_version", Json.text? s.runtimeVersion),
    ("revision", Json.text? s.revision), ("timestamp", some s.timestamp.toJson)]

def fieldNames : List String :=
  ["tool_version", "hostname", "os", "arch", "platform", "runtime_version", "revision", "timestamp"]

def setField (s : Session) (name : String) (v : Json) : Option Session :=
  match name with
  | "tool_version" => (Json.decodeText s.toolVersion v).map fun x => { s with toolVersion := x }
  | "hostname" => (Json.decodeText s.hostname v).map fun x => { s with hostname := x }
  | "os" => (Json.decodeText s.os v).map fun x => { s with os := x }
  | "arch" => (Json.decodeText s.arch v).map fun x => { s with arch := x }
  | "platform" => (Json.decodeText s.platform.name v).map fun x => { s with platform := ⟨x⟩ }
  | "runtime_version" => (Json.decodeText s.runtimeVersion v).map fun x => { s with runtimeVersion := x }
  | "revision" => (Json.decodeText s.revision v).map fun x => { s with revision := x }
  | "timestamp" => (s.timestamp.decode v).map fun x => { s with timestamp := x }
  | _ => some s

def shape : Json.Shape := .record false fieldNames fun _ => .leaf

def decode (cur : Session) (j : Json) : Option Session := Json.decodeFields fieldNames setField cur j

end Session

structure Outcome where
  label : String
deriving DecidableEq, Repr, Inhabited

namespace Outcome

def success : Outcome := ⟨"success"⟩
def failure : Outcome := ⟨"failure"⟩
def cancelled : Outcome := ⟨"cancelled"⟩

def known : List Outcome := [success, failure, cancelled]

end Outcome

structure ModuleRun where
  name : String
  categories : Option (List Category) := none
  start : Instant := Instant.unset
  finish : Instant := Instant.unset
  outcome : Outcome := ⟨""⟩
  error : String := ""
deriving DecidableEq, Repr, Inhabited

namespace ModuleRun

def analyzed (r : ModuleRun) : List Category := r.categories.getD []

def categoriesJson (r : ModuleRun) : Json :=
  match r.categories with
  | none => .null
  | some cs => .strings (cs.map (·.name))

def toJson (r : ModuleRun) : Json :=
  .compactFields [("name", some (.string r.name)), ("categories", some r.categoriesJson),
    ("start_time", some r.start.toJson), ("end_time", some r.finish.toJson),
    ("outcome", some (.string r.outcome.label)), ("error", Json.text? r.error)]

def fieldNames : List String := ["name", "categories", "start_time", "end_time", "outcome", "error"]

def setField (r : ModuleRun) (name : String) (v : Json) : Option ModuleRun :=
  match name with
  | "name" => (Json.decodeText r.name v).map fun s => { r with name := s }
  | "categories" =>
    if v.isNull then some { r with categories := none }
    else (Json.decodeList (Json.decodeText "") v).map fun xs =>
      { r with categories := some (xs.map .mk) }
  | "start_time" => (r.start.decode v).map fun t => { r with start := t }
  | "end_time" => (r.finish.decode v).map fun t => { r with finish := t }
  | "outcome" => (Json.decodeText r.outcome.label v).map fun s => { r with outcome := ⟨s⟩ }
  | "error" => (Json.decodeText r.error v).map fun s => { r with error := s }
  | _ => some r

def shape : Json.Shape :=
  .record false fieldNames fun
    | "categories" => .list .leaf
    | _ => .leaf

def decode (j : Json) : Option ModuleRun := Json.decodeFields fieldNames setField { name := "" } j

end ModuleRun

/-! ### Reports -/

structure Report where
  session : Session := {}
  issues : List Issue := []
  runs : List ModuleRun := []
  catalog : Catalog := Catalog.empty
  params : Params := Params.empty
  rules : RuleSet := RuleSet.empty

namespace Report

def add (r : Report) (batch : List Issue) : Report := { r with issues := r.issues ++ batch }

def record (r : Report) (run : ModuleRun) : Report := { r with runs := r.runs ++ [run] }

def inCategory (r : Report) (c : Category) : List Issue := r.issues.filter (·.category == c)

def ofDescriptor (r : Report) (id : String) : List Issue := r.issues.filter (·.descriptorId == id)

/-! ### Starting over -/

def withoutCategory (c : Category) (run : ModuleRun) : ModuleRun :=
  { run with categories := run.categories.map (·.filter (· != c)) }

/-- Removes the issues of a category and forgets that it was analyzed. A run of which no category is
left is removed. -/
def clear (r : Report) (c : Category) : Report :=
  { r with
    issues := r.issues.filter (·.category != c)
    runs := (r.runs.map (withoutCategory c)).filter fun run => !run.analyzed.isEmpty }

/-! ### Fixed issues -/

def markFixedAt (r : Report) (position : Nat) : Report :=
  { r with issues := r.issues.modify position fun i => { i with fixed := true } }

/-- The match for a finding after one more issue; one that is fixed already is given up. -/
def betterMatch (finding : Issue) (found : Option (Issue × Nat)) (next : Issue × Nat) : Option (Issue × Nat) :=
  if found.all (·.1.fixed) && next.1.sameFinding finding then some next else found

/-- Marks as fixed the match for a finding, and tells whether there is one. -/
def markFixed (r : Report) (finding : Issue) : Report × Bool :=
  match r.issues.zipIdx.foldl (betterMatch finding) none with
  | some (_, position) => (r.markFixedAt position, true)
  | none => (r, false)

/-! ### Runs -/

def hasCategory (r : Report) (c : Category) : Bool := r.runs.any fun run => run.analyzed.contains c

def categories (r : Report) : List Category :=
  ((r.runs.flatMap (·.analyzed)).eraseDups).mergeSort fun a b => Text.rank a.name ≤ Text.rank b.name

def isValid (r : Report) : Bool :=
  r.issues.all (·.description != "") && r.runs.all (·.outcome != Outcome.cancelled)

/-! ### Severities -/

def policy (r : Report) : SeverityPolicy := { rules := some r.rules, catalog := some r.catalog }

def effectiveSeverity (r : Report) (i : Issue) : Severity := r.policy.effective i

/-- Whether an issue may be shown before another: the more severe one first, then by location, then
by description. -/
def showsBefore (r : Report) (a b : Issue) : Bool :=
  let rankA := (r.effectiveSeverity a).rank
  let rankB := (r.effectiveSeverity b).rank
  let placeA := Location.displayOption a.location
  let placeB := Location.displayOption b.location
  if rankA != rankB then rankB < rankA
  else if placeA != placeB then Text.rank placeA < Text.rank placeB
  else Text.rank a.description ≤ Text.rank b.description

/-- Issues in the order in which they are shown. Issues that tie stay in their order. -/
def sorted (r : Report) (issues : List Issue) : List Issue := issues.mergeSort r.showsBefore

end Report

/-! ### Summaries -/

abbrev Counts := List (String × Int)

def Counts.bump (name : String) (cs : Counts) : Counts := Text.place name 1 (· + 1) cs

def Counts.toJson (cs : Counts) : Json := .object (cs.map fun (n, k) => (n, .int k))

structure Summary where
  total : Int := 0
  fixed : Int := 0
  byCategory : Counts := []
  bySeverity : Counts := []
  failures : Int := 0
  cancelled : Int := 0
deriving DecidableEq, Repr, Inhabited

namespace Summary

def toJson (s : Summary) : Json :=
  .object [("total", .int s.total), ("fixed", .int s.fixed), ("by_category", s.byCategory.toJson),
    ("by_severity", s.bySeverity.toJson), ("failures", .int s.failures),
    ("cancelled", .int s.cancelled)]

instance : ToJson Summary := ⟨toJson⟩

end Summary

/-- Counts issues by category and effective severity. Severities that are not counted are in the
total only. -/
def Report.summary (r : Report) : Summary :=
  let severities := (r.issues.map r.effectiveSeverity).filter Severity.isCounted
  { total := r.issues.length
    fixed := r.issues.countP (·.fixed)
    byCategory := r.issues.foldl (fun cs i => cs.bump i.category.name) []
    bySeverity := severities.foldl (fun cs s => cs.bump s.label) []
    failures := r.runs.countP (·.outcome == Outcome.failure)
    cancelled := r.runs.countP (·.outcome == Outcome.cancelled) }

/-! ### The form of documents

The rules name the fields that must be there and restrict the values of known ones. Of several
fields with one name the last counts. -/

namespace Report.Schema

abbrev Rule := Json → Bool

def text (test : String → Bool) : Rule
  | .string s => test s
  | _ => false

def anyText : Rule := text fun _ => true

def nonemptyText : Rule := text (· != "")

def flag : Rule
  | .bool _ => true
  | _ => false

def mantissa (literal : List Char) : List Char :=
  (literal.takeWhile fun c => c != 'e' && c != 'E').filter Char.isDigit

def fractionLength (literal : List Char) : Nat :=
  (((literal.takeWhile fun c => c != 'e' && c != 'E').dropWhile (· != '.')).drop 1).length

def exponent (literal : List Char) : Int :=
  match (literal.dropWhile fun c => c != 'e' && c != 'E').drop 1 with
  | '-' :: ds => -(Nat.ofDigitChars 10 ds 0 : Nat)
  | '+' :: ds => (Nat.ofDigitChars 10 ds 0 : Nat)
  | ds => (Nat.ofDigitChars 10 ds 0 : Nat)

def isWhole (literal : List Char) : Bool :=
  let digits := mantissa literal
  let zeros := (digits.reverse.takeWhile (· == '0')).length
  digits.all (· == '0') || (fractionLength literal : Int) ≤ exponent literal + zeros

def isNegative (literal : List Char) : Bool :=
  literal.head? == some '-' && (mantissa literal).any (· != '0')

def integer : Rule
  | .number s => isWhole s.toList
  | _ => false

def natural : Rule
  | .number s => isWhole s.toList && !isNegative s.toList
  | _ => false

def list (item : Rule) : Rule
  | .array xs => xs.all item
  | _ => false

def listOrNull (item : Rule) : Rule
  | .null => true
  | j => list item j

def record (required : List String) (fields : List (String × Rule)) : Rule
  | .object fs =>
    required.all (fun name => fs.any (·.1 == name)) &&
      fields.all fun (name, rule) => ((Json.object fs).field? name).all rule
  | _ => false

def isSeverity (s : String) : Bool := s == "" || Severity.known.contains ⟨s⟩

def severity : Rule := text isSeverity

def isFormatVersion (s : String) : Bool :=
  match s.toList with
  | '1' :: '.' :: ds => !ds.isEmpty && ds.all Char.isDigit
  | _ => false

def location : Rule :=
  record ["path"] [("path", anyText), ("line", natural), ("column", natural)]

def node (fuel : Nat) : Rule :=
  match fuel with
  | 0 => fun _ => false
  | n + 1 =>
    record ["name"] [("name", anyText), ("location", location), ("children", list (node n)),
      ("truncated", flag)]

mutual

def depth : Json → Nat
  | .array xs => depthOfItems xs + 1
  | .object fs => depthOfFields fs + 1
  | _ => 1

def depthOfItems : List Json → Nat
  | [] => 0
  | x :: xs => max (depth x) (depthOfItems xs)

def depthOfFields : List (String × Json) → Nat
  | [] => 0
  | (_, x) :: fs => max (depth x) (depthOfFields fs)

end

def issue : Rule :=
  record ["category", "description"] [("category", nonemptyText), ("severity", severity),
    ("description", anyText), ("descriptor_id", anyText), ("dependencies", fun j => node (depth j) j),
    ("location", location), ("properties", list anyText), ("fixed", flag)]

def session : Rule :=
  record ["tool_version", "os", "arch", "timestamp"] [("tool_version", anyText), ("hostname", anyText),
    ("os", anyText), ("arch", anyText), ("platform", anyText), ("runtime_version", anyText),
    ("revision", anyText), ("timestamp", anyText)]

def descriptor : Rule :=
  record ["id", "title", "default_severity"] [("id", text Descriptor.isValidId), ("title", anyText),
    ("default_severity", severity)]

def layer : Rule :=
  record ["platform", "params"] [("platform", anyText),
    ("params", list (record ["name", "value"] [("name", nonemptyText), ("value", integer)]))]

def rule : Rule :=
  record ["id", "severity"] [("id", anyText), ("filter", anyText), ("severity", severity)]

def run : Rule :=
  record ["name", "categories", "outcome"] [("name", anyText), ("categories", listOrNull anyText),
    ("outcome", text fun s => Outcome.known.contains ⟨s⟩)]

def document : Rule :=
  record ["format_version", "session", "descriptors", "settings", "modules", "issues"] [
    ("format_version", text isFormatVersion), ("session", session),
    ("descriptors", listOrNull descriptor),
    ("settings", record ["params", "rules"] [("params", list layer), ("rules", list rule)]),
    ("modules", list run),
    ("issues", record ["unfixed", "fixed"] [("unfixed", list issue), ("fixed", list issue)])]

end Report.Schema

namespace Report

def formatVersion : String := "1.0"

def document (r : Report) : Json :=
  .object [("format_version", .string formatVersion), ("session", r.session.toJson),
    ("descriptors", .array (r.catalog.list.map Descriptor.toJson)),
    ("settings", .object [("params", r.params.toJson),
      ("rules", .array (r.rules.rules.map BytecodeAudit.Rule.toJson))]),
    ("modules", .array (r.runs.map ModuleRun.toJson)),
    ("issues", .object [
      ("unfixed", .array ((r.issues.filter fun i => !i.fixed).map Issue.toJson)),
      ("fixed", .array ((r.issues.filter (·.fixed)).map Issue.toJson))])]

def times (r : Report) : List Instant :=
  r.session.timestamp :: r.runs.flatMap fun run => [run.start, run.finish]

/-- The text of a report. Of a caller tree that nests too deep it is the brace of a frame that is
refused. -/
def write (r : Report) : Except Failure String :=
  match r.times.findSome? Instant.fault? with
  | some f => .error f
  | none =>
    if Json.maxDepth < r.document.nesting then .error (.nestedTooDeep "\x7b")
    else .ok (r.document.pretty 0 ++ "\n")

def save (r : Report) (path : String) (d : Disk) : Except Failure Disk := do
  let d ← Failure.ofIo (d.makeDirectories (Path.directory path))
  let text ← r.write
  Failure.ofIo (d.write path (Text.toBytes text))

/-! ### Reading -/

def wellFormed? (text : String) : Option Json := (Json.parse? text).filter Schema.document

def validate (text : String) : Except Failure Unit :=
  match wellFormed? text with
  | some _ => .ok ()
  | none => .error (.invalidReport "the document does not have the form of a report")

structure Parts where
  session : Session := {}
  descriptors : List (Option Descriptor) := []
  layers : List ParamLayer := []
  rules : List BytecodeAudit.Rule := []
  runs : List ModuleRun := []
  unfixed : List (Option Issue) := []
  fixed : List (Option Issue) := []

namespace Parts

def setSettings (p : Parts) (name : String) (v : Json) : Option Parts :=
  match name with
  | "params" => (Json.decodeList ParamLayer.decode v).map fun ls => { p with layers := ls }
  | "rules" => (Json.decodeList BytecodeAudit.Rule.decode v).map fun rs => { p with rules := rs }
  | _ => some p

def setIssues (p : Parts) (name : String) (v : Json) : Option Parts :=
  match name with
  | "unfixed" => (Json.decodeList (Json.decodeOptional Issue.decode) v).map fun is => { p with unfixed := is }
  | "fixed" => (Json.decodeList (Json.decodeOptional Issue.decode) v).map fun is => { p with fixed := is }
  | _ => some p

def setField (p : Parts) (name : String) (v : Json) : Option Parts :=
  match name with
  | "format_version" => (Json.decodeText "" v).map fun _ => p
  | "session" => (p.session.decode v).map fun s => { p with session := s }
  | "descriptors" =>
    (Json.decodeList (Json.decodeOptional Descriptor.decode) v).map fun ds => { p with descriptors := ds }
  | "settings" => Json.decodeFields ["params", "rules"] setSettings p v
  | "modules" => (Json.decodeList ModuleRun.decode v).map fun rs => { p with runs := rs }
  | "issues" => Json.decodeFields ["unfixed", "fixed"] setIssues p v
  | _ => some p

def fieldNames : List String := ["format_version", "session", "descriptors", "settings", "modules", "issues"]

def shape : Json.Shape :=
  .record false fieldNames fun
    | "session" => Session.shape
    | "descriptors" => .list Descriptor.shape
    | "settings" => .record false ["params", "rules"] fun
      | "params" => .list ParamLayer.shape
      | _ => .list Rule.shape
    | "modules" => .list ModuleRun.shape
    | "issues" => .record false ["unfixed", "fixed"] fun _ => .list Issue.shape
    | _ => .leaf

def decodePlain (j : Json) : Option Parts := Json.decodeFields fieldNames setField {} j

/-- Reads the parts of a document. Each value must fit its field, also where a later one is read
over it. -/
def decode (j : Json) : Option Parts := do
  let p ← decodePlain j
  if j.isRepeating then decodePlain (Json.settle shape [j]) else some p

def present {α : Type} (xs : List (Option α)) : Except Failure (List α) :=
  match xs.mapM id with
  | some ys => .ok ys
  | none => .error .nullEntry

/-- The report of the parts. Parameters and rules are rebuilt from their flat forms. -/
def report (p : Parts) : Except Failure Report :=
  match Catalog.empty.registerAll ((p.descriptors.takeWhile Option.isSome).filterMap id) with
  | (_, .error f) => .error (.during "report descriptors" f)
  | (catalog, .ok _) => do
    let _ ← present p.descriptors
    let issues ← present (p.unfixed ++ p.fixed)
    .ok {
      session := p.session
      issues
      runs := p.runs
      catalog
      params := { Params.ofLayers p.layers with platform := p.session.platform }
      rules := RuleSet.ofList p.rules }

end Parts

def read (text : String) : Except Failure Report :=
  match wellFormed? text with
  | none => .error (.invalidReport "the document does not have the form of a report")
  | some j =>
    match Parts.decode j with
    | none => .error (.during "decode report" (.malformed "a value does not fit its field"))
    | some p => p.report

def load (d : Disk) (path : String) : Except Failure Report :=
  match d.read path with
  | .error e =>
    if e.action == "read" then .error (.during path (.io e)) else .error (.io e)
  | .ok bytes => Failure.within path (read (Text.ofBytes bytes))

end Report

end BytecodeAudit
