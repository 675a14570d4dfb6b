import BytecodeAudit.Analyzer
import BytecodeAudit.Config
import BytecodeAudit.Descriptor.Database
import BytecodeAudit.Report.Basic

/-!
# Auditors

An auditor owns the analyzers of a configuration, with the descriptors, parameters and rules that
they and the configuration bring, and runs any number of audits.
-/

namespace BytecodeAudit

structure Environment where
  now : Instant := Instant.unset
  hostname : String := ""
  os : String := "linux"
  arch : String := "amd64"
  /-- The revision of the repository that holds a directory; empty when there is none. -/
  revisionOf : String → String := fun _ => ""
  fileAge : String → Duration := fun _ => ⟨0⟩

structure Auditor where
  config : Config
  analyzers : List Analyzer
  registry : Registry
  rules : RuleSet
  cache : Cache
  version : String := "dev"

structure AuditTarget where
  platform : Platform := Platform.default
  runtimeVersion : String := ""
  modulePaths : List String := []
  settingsPath : String := ""
  categories : List Category := []
deriving DecidableEq, Repr, Inhabited

/-- The analyzers that come with the library, in the order in which they run. -/
def Analyzer.builtin : List Analyzer := [code, assembly, settings]

def Analyzer.registerAll (analyzers : List Analyzer) (r : Registry) : Except Failure Registry :=
  analyzers.foldlM (fun r a => Failure.within ("initializing module " ++ a.name) (a.register r)) r

def Registry.addFile (r : Registry) (d : Disk) (path : String) : Except Failure Registry := do
  let ds ← DescriptorDatabase.loadFile d path
  Failure.within path (r.addDescriptors ds)

namespace Auditor

/-- The cache of a configuration. A directory that cannot be made disables it. -/
def openCache (c : Config.Caching) (d : Disk) : Cache × List LogRecord × Disk :=
  if !c.enabled then (Cache.disabled, [], d)
  else
    match Cache.create c.dir c.ttl d with
    | .ok (cache, d) => (cache, [], d)
    | .error f =>
      (Cache.disabled,
        [{ level := .warning, message := "cache disabled", values := [("error", f.message)] }], d)

def registryOf (config : Config) (analyzers : List Analyzer) (d : Disk) : Except Failure Registry := do
  let r ← Analyzer.registerAll analyzers { params := Params.ofLayers (config.params.map (·.flat)) }
  let r ← config.descriptorFiles.foldlM (fun r path => r.addFile d path) r
  Failure.within "invalid configuration" (config.validate (some r.catalog))
  .ok r

/-- Sets up an auditor. A cache that is given takes the place of the configured one. -/
def create (config : Config) (analyzers : List Analyzer) (version : String) (cache : Option Cache)
    (d : Disk) : Except Failure (Auditor × List LogRecord × Disk) := do
  let registry ← registryOf config analyzers d
  let (cache, log, d) := match cache with
    | some cache => (cache, [], d)
    | none => openCache config.cache d
  .ok ({ config, analyzers, registry, rules := RuleSet.ofList config.rules, cache, version }, log, d)

def catalog (a : Auditor) : Catalog := a.registry.catalog

def target (a : Auditor) (modulePaths : List String) : AuditTarget :=
  { platform := a.config.platform, runtimeVersion := a.config.analysis.runtimeVersion, modulePaths,
    settingsPath := a.config.settingsPath, categories := a.config.categories }

def supports (a : Auditor) (p : Platform) : Bool :=
  p == Platform.default || a.config.supportedPlatforms.contains p

def selected (a : Auditor) (categories : List Category) : List Analyzer :=
  a.analyzers.filter (·.handles categories)

def newReport (a : Auditor) (env : Environment) (t : AuditTarget) : Report :=
  let directory := match t.modulePaths with
    | [] => "."
    | path :: _ => Path.directory path
  { session :=
      { toolVersion := a.version, hostname := env.hostname, os := env.os, arch := env.arch,
        platform := t.platform, runtimeVersion := t.runtimeVersion, revision := env.revisionOf directory,
        timestamp := env.now }
    catalog := a.catalog
    params := a.registry.params.clone
    rules := RuleSet.ofList a.rules.rules }

end Auditor

/-! ### Running audits

The selected analyzers run one after another. One that fails or breaks down does not keep the others
from running: what it sent stays, and its run is recorded with its outcome. After a cancellation the
remaining ones are recorded as cancelled.

An audit of a report replaces the issues and runs of the selected categories. -/

structure Tracker where
  total : Int32 := 0
  done : Int32 := 0
deriving DecidableEq, Repr, Inhabited

def Tracker.fitsWord (n : Int) : Bool := Word.fitsSigned 32 n

def Tracker.add (t : Tracker) (n : Int) : Tracker :=
  if fitsWord n then { t with total := t.total + Int32.ofInt n } else t

def Tracker.tick (t : Tracker) : Tracker := { t with done := t.done + 1 }

/-- Nothing counts without a tracker. -/
def Tracker.counts (t : Option Tracker) : Int × Int := t.elim (0, 0) fun t => (t.done.toInt, t.total.toInt)

structure ProgressEvent where
  done : Int
  total : Int
  unit : String
deriving DecidableEq, Repr

def Tracker.event (t : Tracker) (unit : String) : ProgressEvent := ⟨t.done.toInt, t.total.toInt, unit⟩

structure AuditState where
  report : Report
  disk : Disk
  isCanceled : Bool := false
  batches : List (List Issue) := []
  runs : List ModuleRun := []
  log : List LogRecord := []
  tracker : Tracker := {}
  progress : List ProgressEvent := []

namespace AuditState

def tell (s : AuditState) (r : LogRecord) : AuditState := { s with log := s.log ++ [r] }

/-- Takes one step. An empty batch is nothing. -/
def take (s : AuditState) : AuditStep → AuditState
  | .send [] => s
  | .send batch => { s with report := s.report.add batch, batches := s.batches ++ [batch] }
  | .announce n => { s with tracker := s.tracker.add n }
  | .finish unit =>
    let tracker := s.tracker.tick
    { s with tracker, progress := s.progress ++ [tracker.event unit] }
  | .log r => s.tell r
  | .cancel => { s with isCanceled := true }

def close (s : AuditState) (run : ModuleRun) : AuditState :=
  { s with report := s.report.record run, runs := s.runs ++ [run] }

end AuditState

def AuditEnding.outcome : AuditEnding → Outcome × String
  | .success => (Outcome.success, "")
  | .failure cause =>
    if cause.isStop then (Outcome.cancelled, cause.message) else (Outcome.failure, cause.message)
  | .breakdown text => (Outcome.failure, "panic: " ++ text)

def AuditEnding.record? : AuditEnding → Option LogRecord
  | .success => none
  | .failure cause =>
    some (if cause.isStop then { level := .warning, message := "module cancelled" }
      else { level := .error, message := "module failed", values := [("error", cause.message)] })
  | .breakdown text =>
    some { level := .error, message := "module panicked", values := [("panic", "panic: " ++ text)] }

namespace Auditor

def request (a : Auditor) (env : Environment) (t : AuditTarget) (s : AuditState) : AuditRequest :=
  { platform := t.platform, runtimeVersion := t.runtimeVersion, modulePaths := t.modulePaths,
    settingsPath := t.settingsPath, catalog := a.catalog, params := s.report.params,
    callDepth := a.config.analysis.callDepth, cache := a.cache, now := env.now,
    isCanceled := fun _ => s.isCanceled }

def runAnalyzer (a : Auditor) (env : Environment) (t : AuditTarget) (s : AuditState) (x : Analyzer) :
    AuditState :=
  let run : ModuleRun :=
    { name := x.name, categories := some x.categories, start := env.now, finish := env.now }
  if s.isCanceled then
    s.close { run with outcome := Outcome.cancelled, error := Failure.canceled.message }
  else
    let trace := x.audit (a.request env t s) s.disk
    let s := trace.steps.foldl AuditState.take { s with disk := trace.disk }
    let s := trace.ending.record?.elim s s.tell
    let (outcome, error) := trace.ending.outcome
    s.close { run with outcome, error }

def clearFor (analyzers : List Analyzer) (r : Report) : Report :=
  (analyzers.flatMap (·.categories)).foldl Report.clear r

/-- What analyzers find when an audit starts. -/
def opening (t : AuditTarget) (report : Report) (isCanceled : Bool) (d : Disk) : AuditState :=
  { report := { report with params := { report.params with platform := t.platform } }, isCanceled, disk := d }

/-- Runs the selected analyzers one after another. -/
def runSelected (a : Auditor) (env : Environment) (t : AuditTarget) (report : Report)
    (isCanceled : Bool) (d : Disk) : AuditState :=
  (a.selected t.categories).foldl (a.runAnalyzer env t) (opening t report isCanceled d)

/-- Runs an audit, over a report if one is given. The report is returned also if the audit is not
complete. -/
def run (a : Auditor) (env : Environment) (t : AuditTarget) (again : Option Report)
    (isCanceled : Bool) (d : Disk) : AuditState × Option Failure :=
  let report := again.getD (a.newReport env t)
  if !a.supports t.platform then
    let refusal : LogRecord :=
      { level := .error, message := "platform not supported", values := [("platform", t.platform.display)] }
    ({ report, disk := d, log := [refusal] }, some (.unsupportedPlatform t.platform))
  else
    let report := if again.isSome then clearFor (a.selected t.categories) report else report
    let s := a.runSelected env t report isCanceled d
    (s, if s.isCanceled then some .canceled else none)

/-- Fixes an issue with the fixer of its descriptor and marks it as fixed in a report, if that holds
it. -/
def fix (a : Auditor) (report : Report) (issue : Issue) (d : Disk) : Except Failure Report × Disk :=
  if !issue.isFinding then (.error (.notFixable none), d)
  else
    match a.catalog.lookup issue.descriptorId with
    | .error f => (.error f, d)
    | .ok descriptor =>
      match (a.catalog.entry? descriptor.id).bind (·.fixer) with
      | none => (.error (.notFixable (some descriptor.id)), d)
      | some fixer =>
        match fixer issue d with
        | .error f => (.error (.during ("fixing " ++ descriptor.id) f), d)
        | .ok d =>
          match report.markFixed issue with
          | (report, true) => (.ok report, d)
          | (_, false) =>
            (.error (.plain ("issue " ++ descriptor.id ++ " is not part of the report")), d)

end Auditor

/-! ### Running analyzers at the same time

Each takes its steps in its own pace, and the report has what they send in the order in which they
come to it; for an analyzer that order is its own. A schedule says who takes a step next, and when
somebody cancels the audit. -/

def Analyzer.runAt (x : Analyzer) (start finish : Instant) (ending : Outcome × String) : ModuleRun :=
  { name := x.name, categories := some x.categories, start, finish, outcome := ending.1, error := ending.2 }

/-- What a run that could not start is recorded with. -/
def AuditEnding.unstarted : Outcome × String := (Outcome.cancelled, Failure.canceled.message)

/-- How far an analyzer of a parallel audit has come. -/
inductive Progress where
  | waiting
  /-- It was started at some time, and these steps are still to be taken. -/
  | working (start : Instant) (rest : List AuditStep)
  | done

/-- An analyzer of a parallel audit, with what it does once it is started. -/
structure Worker where
  analyzer : Analyzer
  trace : AuditTrace
  progress : Progress := .waiting

/-- The next step of a worker. One that is to be started in a cancelled audit is recorded as
cancelled, one that has taken its last step with the outcome of its ending. -/
def Worker.advance (w : Worker) (now : Instant) (s : AuditState) : Worker × AuditState :=
  match w.progress with
  | .waiting =>
    if s.isCanceled then
      ({ w with progress := .done }, s.close (w.analyzer.runAt now now AuditEnding.unstarted))
    else ({ w with progress := .working now w.trace.steps }, s)
  | .working start (step :: rest) => ({ w with progress := .working start rest }, s.take step)
  | .working start [] =>
    ({ w with progress := .done },
      (w.trace.ending.record?.elim s s.tell).close (w.analyzer.runAt start now w.trace.ending.outcome))
  | .done => (w, s)

def Worker.isDone (w : Worker) : Bool :=
  match w.progress with
  | .done => true
  | _ => false

/-- An audit whose analyzers run at the same time. -/
structure ParallelAudit where
  state : AuditState
  workers : List Worker

/-- What happens next in a parallel audit. -/
inductive Move where
  | advance (position : Nat) (now : Instant)
  | cancel

namespace ParallelAudit

def start (s : AuditState) (plays : List (Analyzer × AuditTrace)) : ParallelAudit :=
  ⟨s, plays.map fun p => { analyzer := p.1, trace := p.2 }⟩

def step (p : ParallelAudit) : Move → ParallelAudit
  | .advance i now =>
    match p.workers[i]? with
    | none => p
    | some w => ⟨(w.advance now p.state).2, p.workers.set i (w.advance now p.state).1⟩
  | .cancel => { p with state := p.state.take .cancel }

def run (p : ParallelAudit) (schedule : List Move) : ParallelAudit := schedule.foldl step p

def isFinished (p : ParallelAudit) : Bool := p.workers.all Worker.isDone

end ParallelAudit

/-- Audits a report again with the selected analyzers running at the same time, where each does what
is given for it. -/
def Auditor.runTogether (a : Auditor) (t : AuditTarget) (r : Report) (isCanceled : Bool) (d : Disk)
    (plays : List (Analyzer × AuditTrace)) (schedule : List Move) : ParallelAudit :=
  (ParallelAudit.start (opening t (clearFor (a.selected t.categories) r) isCanceled d) plays).run schedule

end BytecodeAudit
