import BytecodeAudit.Cache
import BytecodeAudit.Params
import BytecodeAudit.Scan.Discover
import BytecodeAudit.Scan.Findings
import BytecodeAudit.Setting.Document
import BytecodeAudit.Yaml.Node.Writer

/-!
# Analyzers

An analyzer registers its descriptors and parameters once, and then audits any number of requests.
An audit is a list of steps with an ending: it sends batches of issues, announces and finishes units
of work, and logs.

The code analyzer scans modules for the calls and conversions that descriptors name, and gives every
finding the callers of its method, over the calls of all modules. Findings are kept in the cache
while the module, its symbols and everything else that a scan depends on, as a fingerprint tells,
stay the same.

The settings analyzer checks the values of a settings file against thresholds.
-/

namespace BytecodeAudit

/-- What analyzers register: descriptors, with their fixers, and parameters. -/
structure Registry where
  catalog : Catalog := Catalog.empty
  params : Params := Params.empty

structure AuditRequest where
  platform : Platform := Platform.default
  runtimeVersion : String := ""
  modulePaths : List String := []
  settingsPath : String := ""
  catalog : Catalog := Catalog.empty
  params : Params := Params.empty
  callDepth : Int := 0
  cache : Cache := Cache.disabled
  now : Instant := Instant.unset
  /-- Whether a look at the cancellation finds the audit cancelled, by the number of looks before
  it. -/
  isCanceled : Nat → Bool := fun _ => false

inductive AuditStep where
  | send (batch : List Issue)
  | announce (units : Nat)
  | finish (unit : String)
  | log (record : LogRecord)
  | cancel

inductive AuditEnding where
  | success
  | failure (cause : Failure)
  | breakdown (text : String)

/-- What an analyzer does during an audit, and the files it leaves. -/
structure AuditTrace where
  steps : List AuditStep := []
  ending : AuditEnding := .success
  disk : Disk

structure Analyzer where
  name : String
  categories : List Category
  register : Registry → Except Failure Registry
  audit : AuditRequest → Disk → AuditTrace

def Registry.addDescriptors (r : Registry) (ds : List Descriptor) : Except Failure Registry :=
  match r.catalog.registerAll ds with
  | (catalog, .ok _) => .ok { r with catalog }
  | (_, .error f) => .error f

def Registry.addParam (r : Registry) (name : String) (value : Int) : Registry :=
  { r with params := r.params.register name value }

def AuditTrace.batches (t : AuditTrace) : List (List Issue) :=
  t.steps.filterMap fun
    | .send batch => some batch
    | _ => none

def AuditTrace.issues (t : AuditTrace) : List Issue := t.batches.flatten

/-- Whether an analyzer sends issues of some categories; none means all. -/
def Analyzer.handles (a : Analyzer) (categories : List Category) : Bool :=
  categories.isEmpty || a.categories.any categories.contains

/-! ### Scripts

Auditors are tried out with analyzers that do what a script says. -/

inductive ScriptEnding where
  | success
  | failure (cause : Failure)
  | breakdown (text : String)
  | cancel (fails : Bool)

structure Script where
  name : String
  categories : List Category := []
  descriptors : List Descriptor := []
  params : List (String × Int) := []
  refusal : Option Failure := none
  /-- An id whose issues can be fixed, and why the fix fails, if it does. -/
  fixer : Option (String × Option Failure) := none
  batches : List (List Issue) := []
  /-- A parameter that is read after the batches, and sent as an issue with as many marks as it
  counts. -/
  reads : Option String := none
  ending : ScriptEnding := .success

namespace Script

def register (s : Script) (r : Registry) : Except Failure Registry := do
  if let some f := s.refusal then .error f
  let r := s.params.foldl (fun (r : Registry) (name, value) => r.addParam name value) r
  let r ← r.addDescriptors s.descriptors
  match s.fixer with
  | none => .ok r
  | some (id, failure) =>
    let fix : Fixer := fun _ d => failure.elim (.ok d) .error
    .ok { r with catalog := ← r.catalog.attachFixer id (some fix) }

def paramIssue (s : Script) (name : String) (value : Int) : Issue :=
  { category := s.categories.headD ⟨""⟩, description := name,
    properties := [String.ofList (List.replicate value.toNat '#')] }

def play (s : Script) (r : AuditRequest) : List AuditStep × AuditEnding :=
  let sent := s.batches.map .send
  match s.reads.map fun name => (name, r.params.get name) with
  | some (_, .error f) => (sent, .failure f)
  | found =>
    let sent := match found with
      | some (name, .ok value) => sent ++ [.send [s.paramIssue name value]]
      | _ => sent
    match s.ending with
    | .success => (sent, .success)
    | .failure f => (sent, .failure f)
    | .breakdown text => (sent, .breakdown text)
    | .cancel fails => (sent ++ [.cancel], if fails then .failure .canceled else .success)

def analyzer (s : Script) : Analyzer where
  name := s.name
  categories := s.categories
  register := s.register
  audit r d :=
    let (steps, ending) := s.play r
    { steps, ending, disk := d }

def endingOfName (name text : String) : ScriptEnding :=
  match name with
  | "error" => .failure (.plain text)
  | "panic" => .breakdown text
  | "cancel" => .cancel true
  | "cancel_ok" => .cancel false
  | "deadline" => .failure .deadlineExceeded
  | _ => .success

def ofJson (j : Json) : Script :=
  let text (name : String) : Option String :=
    some (j.field name).text |>.filter (· != "")
  { name := (j.field "name").text
    categories := (j.field "categories").texts.map .mk
    descriptors := (j.field "descriptors").items.filterMap Descriptor.decode
    params := (j.field "params").fields.map fun (name, value) => (name, value.integer)
    refusal := (text "init_error").map .plain
    fixer := (text "fixer").map fun id => (id, (text "message").map .plain)
    batches := (j.field "batches").items.map fun b => b.items.filterMap Issue.decode
    reads := text "get_param"
    ending := endingOfName (j.field "result").text (j.field "message").text }

end Script

/-! ### Modules as a whole

A module can be a debug build or too large, and its symbols can be missing or incomplete. -/

namespace Analyzer.Assembly

def name : String := "assembly"

/-- The parameter that bounds the size of a module, in units of 1024 bytes. -/
def sizeLimit : String := "ModuleSizeLimitKB"

def maxListedMethods : Nat := 10

/-- An issue with the warning about its wording, if there is one. -/
abbrev Checked := Issue × Option LogRecord

def misfit (id : String) : LogRecord :=
  { level := .warning, message := "descriptor message does not fit its arguments",
    values := [("descriptor", id)] }

/-- The issue of a descriptor at a module, if the descriptor applies. -/
def finding (r : AuditRequest) (m : LoadedModule) (id : String) (args : List Text.Template.Arg) :
    List Checked :=
  match r.catalog.get? id with
  | none => []
  | some d =>
    if !d.isApplicable r.platform r.runtimeVersion then []
    else
      let (description, fits) := d.message args
      [({ category := Category.assembly, description, descriptorId := id,
          location := some { path := m.path }, properties := [m.content.name] },
        if fits then none else some (misfit id))]

def skippedMethods (m : LoadedModule) : List Checked :=
  let name := m.content.name
  match (SkippedMethods.record {} (m.content.scan false)).ofModule name with
  | [] => []
  | tokens =>
    let listed := (tokens.take maxListedMethods).map fun t => "0x" ++ Text.hexDigits 8 t.toNat
    [({ category := Category.assembly, severity := Severity.info,
        description := toString tokens.length ++ " methods of '" ++ name ++
          "' have no debug information and were not analyzed",
        location := some { path := m.path }, properties := name :: listed }, none)]

def check (r : AuditRequest) (limit : Int) (m : LoadedModule) : List Checked :=
  let named : Text.Template.Arg := .text m.content.name
  let size := m.size / 1024
  (if m.content.isDebugBuild then finding r m "ASM0001" [named] else []) ++
    (if m.content.hasSymbols then skippedMethods m else finding r m "ASM0002" [named]) ++
    (if limit < size then finding r m "ASM0003" [named, .int size, .int limit] else [])

/-- Checks modules in turn, with a look at the cancellation before each; `looks` counts the looks so
far. -/
def checkAll (r : AuditRequest) (limit : Int) (looks : Nat) :
    List LoadedModule → List AuditStep × AuditEnding
  | [] => ([], .success)
  | m :: ms =>
    if r.isCanceled looks then ([], .failure .canceled)
    else
      let checked := check r limit m
      let (steps, ending) := checkAll r limit (looks + 1) ms
      ((checked.filterMap (·.2)).map .log ++ .send (checked.map (·.1)) :: .finish m.path :: steps, ending)

def audit (r : AuditRequest) (d : Disk) : AuditTrace :=
  match Scan.openUnlessCanceled d r.modulePaths (r.isCanceled 0) with
  | .error f => { ending := .failure f, disk := d }
  | .ok opened =>
    match r.params.getFor sizeLimit r.platform with
    | .error f => { ending := .failure f, disk := d }
    | .ok limit =>
      let (steps, ending) := checkAll r limit 1 opened.modules
      { steps := .announce opened.modules.length :: steps, ending, disk := d }

end Analyzer.Assembly

namespace Analyzer

def assembly : Analyzer where
  name := Assembly.name
  categories := [Category.assembly]
  register r := (r.addParam Assembly.sizeLimit 2048).addDescriptors Builtin.assemblyDescriptors
  audit := Assembly.audit

end Analyzer

namespace Analyzer.Code

def name : String := "code"

def cacheKey (path : String) : String := name ++ ":" ++ path

def descriptorKey (d : Descriptor) : String :=
  String.intercalate "\x1f" [d.id, d.typeName, d.method, d.opcode, d.messageFormat, d.title,
    d.defaultSeverity.label, String.intercalate "," (d.platforms.map (·.name)), d.minVersion, d.maxVersion]

def matcher (r : AuditRequest) : Matcher := Matcher.ofCatalog r.catalog r.platform r.runtimeVersion

/-- The texts that tell everything a scan depends on besides the module. -/
def fingerprintParts (r : AuditRequest) : List String :=
  [r.platform.name, r.runtimeVersion, toString (matcher r).size] ++
    (r.catalog.list.filter (·.isApplicable r.platform r.runtimeVersion)).map descriptorKey

def fingerprint (r : AuditRequest) : String := Digest.Blake3.hashTexts (fingerprintParts r)

def fileHash? (d : Disk) (path : String) : Option String :=
  (d.read path).toOption.map Digest.Blake3.hash

def moduleHash? (d : Disk) (path : String) : Option String :=
  (fileHash? d path).map fun hash => hash ++ (fileHash? d (Module.symbolsPath path)).getD ""

/-- How modules are scanned: what is found, unless the scan breaks down, and what is logged. -/
abbrev Scanning := LoadedModule → Except String Findings × List LogRecord

/-- The scan of a request, which does not break down. -/
def scanning (r : AuditRequest) : Scanning := fun m =>
  let (findings, log) := Findings.ofInstructions (matcher r) m.content.instructions
  (.ok findings, log)

/-- What a look at a module gives, without findings if its scan broke down. -/
structure Examined where
  findings : Option Findings
  log : List LogRecord := []
  disk : Disk

def scanAndKeep (scan : Scanning) (r : AuditRequest) (hash : Option String) (m : LoadedModule)
    (d : Disk) : Examined :=
  match scan m with
  | (.error text, log) =>
    let failed : LogRecord :=
      { level := .error, message := "module scan failed",
        values := [("module", m.content.name), ("panic", text)] }
    { findings := none, log := log ++ [failed], disk := d }
  | (.ok findings, log) =>
    match hash.map fun hash => r.cache.set r.now (cacheKey m.path) hash findings.encode d with
    | some (.ok d) => { findings, log, disk := d }
    | some (.error f) =>
      let warning : LogRecord :=
        { level := .warning, message := "cache write failed",
          values := [("module", m.content.name), ("error", f.message)] }
      { findings, log := log ++ [warning], disk := d }
    | none => { findings, log, disk := d }

/-- The findings of a module: those that were kept under the same hash, or else those of a scan. -/
def examine (scan : Scanning) (r : AuditRequest) (m : LoadedModule) (d : Disk) : Examined :=
  if !r.cache.isEnabled then scanAndKeep scan r none m d
  else
    match (moduleHash? d m.path).map (· ++ fingerprint r) with
    | none => scanAndKeep scan r none m d
    | some hash =>
      let (kept, d) := r.cache.get r.now (cacheKey m.path) hash d
      match kept.bind Findings.decode? with
      | some findings => { findings, disk := d }
      | none => scanAndKeep scan r (some hash) m d

structure Survey where
  findings : List Findings := []
  steps : List AuditStep := []
  isCut : Bool := false
  disk : Disk

/-- Examines modules in turn, with a look at the cancellation before each; `looks` counts the looks
so far. -/
def survey (scan : Scanning) (r : AuditRequest) (looks : Nat) : List LoadedModule → Disk → Survey
  | [], d => { disk := d }
  | m :: ms, d =>
    if r.isCanceled looks then { isCut := true, disk := d }
    else
      let one := examine scan r m d
      let rest := survey scan r (looks + 1) ms one.disk
      { rest with
        findings := one.findings.toList ++ rest.findings
        steps := one.log.map .log ++ .finish m.path :: rest.steps }

def unloadable (path : String) (cause : Failure) : Issue :=
  { category := Category.code, severity := Severity.info,
    description := "Module could not be loaded: " ++ cause.message, location := some { path } }

def skip (path : String) (cause : Failure) : List AuditStep :=
  [.log { level := .warning, message := "skipping module",
          values := [("path", path), ("error", cause.message)] },
    .send [unloadable path cause]]

def graphOf (findings : List Findings) : CallGraph :=
  findings.foldl (fun g f => g.addAll f.edges) CallGraph.empty

def issuesOf (depth : Int) (findings : List Findings) : List Issue :=
  let graph := graphOf findings
  (findings.flatMap (·.issues)).map (graph.expandIssue depth)

/-- An audit with scans that may break down. -/
def tryAudit (scan : Scanning) (r : AuditRequest) (d : Disk) : AuditTrace :=
  match Scan.openUnlessCanceled d r.modulePaths (r.isCanceled 0) with
  | .error f => { ending := .failure f, disk := d }
  | .ok opened =>
    let s := survey scan r 1 opened.modules d
    { steps := opened.failures.flatMap (fun (path, f) => skip path f) ++
        .announce opened.modules.length :: s.steps ++ [.send (issuesOf r.callDepth s.findings)]
      ending := if s.isCut then .failure .canceled else .success
      disk := s.disk }

def audit (r : AuditRequest) (d : Disk) : AuditTrace := tryAudit (scanning r) r d

def callGraph (d : Disk) (paths : List String) (isCanceled : Bool) :
    Except Failure (CallGraph × List (String × Failure)) :=
  if isCanceled then .error .canceled
  else
    let opened := Scan.openAll d paths
    let edges := opened.modules.flatMap fun m => m.content.instructions.filterMap ScannedInstruction.edge?
    .ok (CallGraph.ofList edges, opened.failures)

end Analyzer.Code

namespace Analyzer

def code : Analyzer where
  name := Code.name
  categories := [Category.code]
  register r := r.addDescriptors Builtin.codeDescriptors
  audit := Code.audit

end Analyzer

/-! ### Setting a scalar of a YAML document

The first entry with a key counts; missing entries are added behind the others. -/

namespace Yaml

namespace Node

/-- Changes the value of the first entry with a key, or adds an entry with a changed empty
mapping. -/
def updateEntry {ε : Type} (key : String) (change : Node → Except ε Node) :
    List (Node × Node) → Except ε (List (Node × Node))
  | [] => do .ok [(stringKey key, ← change emptyMapping)]
  | (k, v) :: rest =>
    if k.text == key then do .ok ((k, ← change v) :: rest)
    else do .ok ((k, v) :: (← updateEntry key change rest))

/-- Makes the node at a path a plain scalar. A path that leads through something else than mappings
is refused with the part of it, `done`, that does. -/
def setAt (value : String) (done : List String) : List String → Node → Except (List String) Node
  | [], n => .ok (n.toPlainScalar value)
  | key :: rest, .mapping trim isFlow entries => do
    .ok (.mapping trim isFlow (← updateEntry key (setAt value (done ++ [key]) rest) entries))
  | _ :: _, _ => .error done

def entry? (key : String) : Node → Option Node
  | .mapping _ _ entries => (entries.find? fun (k, _) => k.text == key).map (·.2)
  | _ => none

def at? : List String → Node → Option Node
  | [], n => some n
  | key :: rest, n => (n.entry? key).bind (at? rest)

end Node

/-- Sets the scalar at a path. A document without a node becomes a mapping. -/
def Document.setAt (d : Document) (path : List String) (value : String) :
    Except (List String) Document := do
  .ok { d with root := some (← (d.root.getD Node.emptyMapping).setAt value [] path) }

mutual

def Node.keyLines (before : String) : Node → List (String × Nat)
  | .mapping _ _ entries => entryLines before entries
  | _ => []

def entryLines (before : String) : List (Node × Node) → List (String × Nat)
  | [] => []
  | (k, v) :: rest =>
    let name := if before == "" then k.text else before ++ "." ++ k.text
    (name, k.trim.line) :: v.keyLines name ++ entryLines before rest

end

/-- The line of a dotted key; of several with one spelling the last counts, and zero is none. -/
def Document.lineOf (d : Document) (key : String) : Nat :=
  let lines := match d.root with
    | some n => n.keyLines ""
    | none => []
  ((lines.reverse.lookup key)).getD 0

end Yaml

/-! ### Fixing settings

Only YAML files can be changed; their comments and the order of their keys stay. -/

namespace Setting

def isYamlPath (path : String) : Bool :=
  let extension := Text.lower (Path.extension path)
  extension == ".yaml" || extension == ".yml"

def keyParts (key : String) : List String := (key.toList.splitOn '.').map String.ofList

/-- Reads the first document of a file; a file without one is an empty document. -/
def readDocument (bytes : Bytes) : Except Yaml.Fault Yaml.Document := do
  .ok ((← Yaml.Document.ofBytes bytes).getD {})

/-- Writes the recommended value of an issue into its file. The properties of the issue are the key,
the old value and the new one. -/
def fix (i : Issue) (d : Disk) : Except Failure Disk :=
  match i.location, i.properties with
  | some l, key :: _ :: value :: _ =>
    if !isYamlPath l.path then .error (.unwritableSettings l.path)
    else do
      let bytes ← Failure.ofIo (d.read l.path)
      match readDocument bytes with
      | .error fault => .error (.during ("parsing " ++ l.path) (.malformed fault.message))
      | .ok document =>
        match document.setAt (keyParts key) value with
        | .error part => .error (.notMapping key (String.intercalate "." part))
        | .ok document => Failure.ofIo (d.write l.path (Text.toBytes document.render))
  | _, _ => .error (.noSettingValue i.descriptorId)

end Setting

namespace Analyzer.Settings

def name : String := "settings"

inductive Test where
  | below (param : String)
  | above (param : String)
  | disabled
deriving DecidableEq, Repr

structure Check where
  id : String
  key : String
  test : Test
deriving DecidableEq, Repr

def thresholds : List (String × Int) := [("FixedTimestepMinMs", 20), ("MaxTextureQualityLevel", 1)]

def checks : List Check :=
  [⟨"SET0001", "time.fixed_timestep_ms", .below "FixedTimestepMinMs"⟩,
    ⟨"SET0002", "build.strip_engine_code", .disabled⟩,
    ⟨"SET0003", "gc.incremental", .disabled⟩,
    ⟨"SET0004", "quality.max_texture_quality_level", .above "MaxTextureQualityLevel"⟩]

structure Verdict where
  args : List Text.Template.Arg
  recommended : String

def judge (isFine : Bool) (value limit : Int) : Option Verdict :=
  if isFine then none else some ⟨[.int value, .int limit], toString limit⟩

def Test.verdict (t : Test) (r : AuditRequest) (v : Setting) : Except Failure (Option Verdict) :=
  match t with
  | .below param => do
    let limit ← r.params.getFor param r.platform
    .ok (judge (limit ≤ v.toInt) v.toInt limit)
  | .above param => do
    let limit ← r.params.getFor param r.platform
    .ok (judge (v.toInt ≤ limit) v.toInt limit)
  | .disabled => .ok (if v.toBool then none else some ⟨[], "true"⟩)

def lineOf (d : Disk) (path key : String) : Nat :=
  if !Setting.isYamlPath path then 0
  else
    match (d.read path).toOption.map Setting.readDocument with
    | some (.ok document) => document.lineOf key
    | _ => 0

/-- The finding of a check, with a warning about its wording; none if its descriptor does not apply
or its key has no value. -/
def Check.run (c : Check) (r : AuditRequest) (settings : Setting) (line : Nat) :
    Except Failure (Option (Issue × Option LogRecord)) :=
  match r.catalog.get? c.id, settings.find? c.key with
  | some descriptor, some value =>
    if !descriptor.isApplicable r.platform r.runtimeVersion then .ok none
    else do
      match ← c.test.verdict r value with
      | none => .ok none
      | some verdict =>
        let (description, fits) := descriptor.message verdict.args
        let issue : Issue :=
          { category := Category.settings, description, descriptorId := c.id,
            location := some { path := r.settingsPath, line },
            properties := [c.key, value.toText, verdict.recommended] }
        let misfit : LogRecord :=
          { level := .warning, message := "descriptor message does not fit its arguments",
            values := [("descriptor", c.id)] }
        .ok (some (issue, if fits then none else some misfit))
  | _, _ => .ok none

/-- Makes checks in order, up to the first that fails. What was logged until then stays. -/
def runChecks (run : Check → Except Failure (Option (Issue × Option LogRecord))) :
    List Check → List LogRecord × Except Failure (List Issue)
  | [] => ([], .ok [])
  | c :: cs =>
    match run c with
    | .error f => ([], .error f)
    | .ok none => runChecks run cs
    | .ok (some (issue, warning)) =>
      let (log, rest) := runChecks run cs
      (warning.toList ++ log, rest.map (issue :: ·))

def audit (r : AuditRequest) (d : Disk) : AuditTrace :=
  if r.settingsPath == "" then { disk := d }
  else if r.isCanceled 0 then { ending := .failure .canceled, disk := d }
  else
    match Setting.load d r.settingsPath with
    | .error f => { ending := .failure f, disk := d }
    | .ok settings =>
      match runChecks (fun c => c.run r settings (lineOf d r.settingsPath c.key)) checks with
      | (log, .error f) => { steps := log.map .log, ending := .failure f, disk := d }
      | (log, .ok issues) => { steps := log.map .log ++ [.send issues], disk := d }

def attachFixes (r : Registry) : Except Failure Registry := do
  let catalog ← checks.foldlM (fun c check => c.attachFixer check.id (some Setting.fix)) r.catalog
  .ok { r with catalog }

end Analyzer.Settings

namespace Analyzer

def settings : Analyzer where
  name := Settings.name
  categories := [Category.settings]
  register r := do
    let r := Settings.thresholds.foldl (fun r (name, value) => r.addParam name value) r
    Settings.attachFixes (← r.addDescriptors Builtin.settingsDescriptors)
  audit := Settings.audit

end Analyzer

end BytecodeAudit
