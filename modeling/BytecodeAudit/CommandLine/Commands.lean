import BytecodeAudit.View.Report
import BytecodeAudit.Watch.Basic

/-!
# Commands

A command is a computation over a console: it reads and changes the file tree, writes text and
status lines, and may fail. What was written before a failure stays.

An audit shows the issues of modules and settings. A watch audits and sets up a watcher; whoever
runs it feeds the watcher and shows a new report after every batch of changes.
-/

namespace BytecodeAudit

/-! ### Options

The words of a command line are flags up to the first that is none. A flag takes its value from
behind an equals sign or from the next word, unless it is a switch. -/

namespace CommandLine

inductive FlagKind where
  | switch
  | text
  | list
  | number
  | duration
deriving DecidableEq, Repr

structure Flag where
  name : String
  aliases : List String := []
  kind : FlagKind := .text
  usage : String := ""
  initial : String := ""
  showsDefault : Bool := true
  environment : String := ""
deriving DecidableEq, Repr

def Flag.names (f : Flag) : List String := f.name :: f.aliases

inductive Word where
  | operand
  /-- The mark behind which every word is an operand. -/
  | stop
  | flag (name : String) (value : Option String)
  | malformed
deriving DecidableEq, Repr

def Word.ofBody (cs : List Char) : Word :=
  if cs.isEmpty || cs.head? == some '-' || cs.head? == some '=' then .malformed
  else
    let value := match cs.dropWhile (· != '=') with
      | [] => none
      | _ :: value => some (String.ofList value)
    .flag (String.ofList (cs.takeWhile (· != '='))) value

def Word.of (s : String) : Word :=
  match s.toList with
  | ['-', '-'] => .stop
  | '-' :: '-' :: cs => ofBody cs
  | '-' :: c :: cs => ofBody (c :: cs)
  | _ => .operand

def truth? (s : String) : Option Bool :=
  if ["1", "t", "T", "TRUE", "true", "True"].contains s then some true
  else if ["0", "f", "F", "FALSE", "false", "False"].contains s then some false
  else none

/-- Why a text is not a number of 64 bits: it is none, or it is too large. What is wrong first
decides. -/
def numberFault (s : String) : String :=
  if Setting.isTooLarge s then "value out of range" else "parse error"

def FlagKind.check (k : FlagKind) (name value : String) : Except Failure Unit :=
  let refuse (reason : String) : Except Failure Unit :=
    .error (.plain ("invalid value " ++ Text.quoted value ++ " for flag -" ++ name ++ ": " ++ reason))
  match k with
  | .text | .list => .ok ()
  | .switch =>
    if (truth? value).isSome then .ok ()
    else .error (.plain ("invalid boolean value " ++ Text.quoted value ++ " for -" ++ name ++ ": parse error"))
  | .number => if value != "" && (Setting.intOfText? value).isSome then .ok () else refuse (numberFault value)
  | .duration => if (Duration.parse? value).isSome then .ok () else refuse "parse error"

def scan (flags : List Flag) : List String → Except Failure (List (String × String) × List String)
  | [] => .ok ([], [])
  | w :: ws =>
    match Word.of w with
    | .operand => .ok ([], w :: ws)
    | .stop => .ok ([], ws)
    | .malformed => .error (.plain ("bad flag syntax: " ++ w))
    | .flag name value =>
      match flags.find? (·.names.contains name) with
      | none => .error (.plain ("flag provided but not defined: -" ++ name))
      | some f =>
        match value, f.kind, ws with
        | some v, kind, ws => do
          kind.check name v
          let (given, operands) ← scan flags ws
          .ok ((name, v) :: given, operands)
        | none, .switch, ws => do
          let (given, operands) ← scan flags ws
          .ok ((name, "true") :: given, operands)
        | none, _, [] => .error (.plain ("flag needs an argument: -" ++ name))
        | none, kind, v :: ws => do
          kind.check name v
          let (given, operands) ← scan flags ws
          .ok ((name, v) :: given, operands)

def checkSpelling (given : List (String × String)) (f : Flag) : Except Failure Unit :=
  match f.names.filter fun n => given.any (·.1 == n) with
  | first :: second :: _ =>
    .error (.plain ("Cannot use two forms of the same flag: " ++ second ++ " " ++ first))
  | _ => .ok ()

/-- The values of flags by their main names, in the order in which they were given. -/
structure Options where
  values : List (String × String) := []
deriving DecidableEq, Repr

namespace Options

def parse (flags : List Flag) (words : List String) : Except Failure (Options × List String) := do
  let (given, operands) ← scan flags words
  flags.forM (checkSpelling given)
  let mainName (n : String) : String := ((flags.find? (·.names.contains n)).map (·.name)).getD n
  .ok (⟨given.map fun (n, v) => (mainName n, v)⟩, operands)

def append (a b : Options) : Options := ⟨a.values ++ b.values⟩

def get? (o : Options) (name : String) : Option String := o.values.reverse.lookup name

def text (o : Options) (name : String) : String := (o.get? name).getD ""

def text? (o : Options) (name : String) : Option String := (o.get? name).filter (· != "")

def isOn (o : Options) (name : String) : Bool := ((o.get? name).bind truth?).getD false

def number (o : Options) (name : String) : Int := ((o.get? name).bind Setting.intOfText?).getD 0

def list (o : Options) (name : String) : List String :=
  (o.values.filter (·.1 == name)).flatMap fun (_, v) => (v.splitOn ",").map Text.trim

end Options

/-! ### The console -/

structure Console where
  disk : Disk
  text : String := ""
  status : String := ""
  log : List LogRecord := []

abbrev Command := ExceptT Failure (StateM Console)

structure Invocation where
  env : Environment := {}
  version : String := "dev"
  options : Options := {}
  operands : List String := []
  isCanceled : Bool := false
  showsColors : Bool := false

namespace Command

def ofExcept {α : Type} (r : Except Failure α) : Command α := ExceptT.mk (pure r)

def disk : Command Disk := do return (← get).disk

def setDisk (d : Disk) : Command Unit := modify fun c => { c with disk := d }

def write (s : String) : Command Unit := modify fun c => { c with text := c.text ++ s }

def tell (s : String) : Command Unit := modify fun c => { c with status := c.status ++ s }

def within {α : Type} (activity : String) (r : Except Failure α) : Command α :=
  ofExcept (Failure.within activity r)

def writeStyled (s : Invocation) (style : Style) (line : String) : Command Unit :=
  write (if s.showsColors then Style.apply [style] (line ++ "\n") else line ++ "\n")

end Command

/-! ### Printers -/

structure Printer where
  format : Format
  isColored : Bool
  showsColors : Bool
  /-- The file that takes the text in place of the console. -/
  path : Option String := none

namespace Printer

def writesStyles (p : Printer) : Bool := p.isColored && p.showsColors

def create (s : Invocation) (c : Config) : Command Printer := do
  let format := Format.parse c.output.format
  match s.options.text? "output" with
  | none =>
    return { format, isColored := c.output.color && !s.options.isOn "no-color", showsColors := s.showsColors }
  | some path =>
    Command.setDisk (← Command.ofExcept (Failure.ofIo ((← Command.disk).write path [])))
    return { format, isColored := false, showsColors := s.showsColors, path := some path }

def write (p : Printer) (text : String) : Command Unit := do
  match p.path with
  | none => Command.write text
  | some path =>
    let d ← Command.disk
    let before := (d.read path).toOption.getD []
    Command.setDisk (← Command.ofExcept (Failure.ofIo (d.write path (before ++ Text.toBytes text))))

def print (p : Printer) (v : View) : Command Unit := do
  p.write (← Command.ofExcept (p.format.write p.writesStyles v))

def notify (p : Printer) (t : Tone) (message : String) : Command Unit :=
  Command.tell (if p.isColored && !p.showsColors then message ++ "\n" else t.line p.isColored message)

end Printer

end CommandLine

namespace CommandLine.Invocation

def configFile (s : Invocation) : Command (Config × Option String) := do
  Command.ofExcept (Config.loadChecked (← Command.disk) (s.options.text? "config"))

def config (s : Invocation) : Command Config := do
  let (c, _) ← s.configFile
  let c := if s.options.isOn "no-cache" then { c with cache := { c.cache with enabled := false } } else c
  let c := match s.options.text? "format" with
    | some format => { c with output := { c.output with format } }
    | none => c
  return if s.options.isOn "verbose" then { c with output := { c.output with verbose := true } } else c

def auditor (s : Invocation) (c : Config) : Command Auditor := do
  let (a, log, d) ← Command.ofExcept (Auditor.create c Analyzer.builtin s.version none (← Command.disk))
  modify fun k => { k with disk := d, log := k.log ++ log }
  return a

def paths (s : Invocation) : List String := if s.operands.isEmpty then ["."] else s.operands

def discover (c : Config) (paths : List String) : Command (List String) := do
  let d ← Command.disk
  Command.ofExcept (Scan.discover d (paths.map d.absolute) c.modules.included c.modules.excluded)

def severity (s : Invocation) (name : String) : Except Failure Severity :=
  match s.options.text? name with
  | none => .ok Severity.default
  | some label =>
    match Severity.parse label with
    | .ok v => .ok v
    | .error e => .error (.unknownSeverity e.given)

def audit (s : Invocation) (a : Auditor) (t : AuditTarget) : Command Report := do
  let (state, failure) := a.run s.env t none s.isCanceled (← Command.disk)
  modify fun k => { k with disk := state.disk, log := k.log ++ state.log }
  match failure with
  | some f => throw (.during "audit failed" f)
  | none => return state.report

def noModules (p : Printer) : Command Unit := p.notify .warning "No modules found"

end CommandLine.Invocation

/-! ### Audits -/

def Report.hasIssueFrom (r : Report) (severity : Severity) : Bool :=
  r.issues.any fun i =>
    let s := r.effectiveSeverity i
    !i.fixed && s.isCounted && severity.rank ≤ s.rank

namespace CommandLine.Invocation

def target (s : Invocation) (a : Auditor) (modules : List String) : AuditTarget :=
  let t := a.target modules
  let categories := s.options.list "category"
  { t with
    platform := (s.options.text? "platform").elim t.platform Platform.parse
    runtimeVersion := (s.options.text? "runtime-version").getD t.runtimeVersion
    settingsPath := (s.options.text? "settings").getD t.settingsPath
    categories := if categories.isEmpty then t.categories else categories.map Category.mk }

/-- Fixes one issue, if it can be fixed. The number counts the issues that were. -/
def fixIssue (p : Printer) (a : Auditor) (state : Report × Nat) (i : Issue) : Command (Report × Nat) := do
  let (report, count) := state
  if i.fixed || !a.catalog.canFix i.descriptorId then return state
  let (r, d) := a.fix report i (← Command.disk)
  Command.setDisk d
  match r with
  | .ok report => return (report, count + 1)
  | .error f =>
    p.notify .error ("Fixing " ++ i.descriptorId ++ " failed: " ++ f.message)
    return state

def fixAll (p : Printer) (a : Auditor) (report : Report) : Command Report := do
  let (fixed, count) ← report.issues.foldlM (fixIssue p a) (report, 0)
  if 0 < count then p.notify .success ("Fixed " ++ toString count ++ " issue(s)")
  return fixed

def reportRun (p : Printer) (r : ModuleRun) : Command Unit :=
  if r.outcome == Outcome.failure then p.notify .error ("Module " ++ r.name ++ " failed: " ++ r.error)
  else if r.outcome == Outcome.cancelled then p.notify .warning ("Module " ++ r.name ++ " was cancelled")
  else pure ()

def showReport (s : Invocation) (c : Config) (p : Printer) (minimum : Severity) (report : Report) :
    Command Unit := do
  p.print (IssuesView.view { report, minimum, showTrees := s.options.isOn "tree" })
  if c.output.verbose && p.format == .text then
    p.print (ModuleRun.table report.runs p.writesStyles).view
  report.runs.forM (reportRun p)

def auditModules (s : Invocation) (c : Config) (a : Auditor) (p : Printer) (t : AuditTarget)
    (minimum failOn : Severity) : Command Unit := do
  let report ← s.audit a t
  let report ← if s.options.isOn "fix" then fixAll p a report else pure report
  if let some path := s.options.text? "save" then
    Command.setDisk (← Command.within "saving report" (report.save path (← Command.disk)))
  s.showReport c p minimum report
  if !failOn.isDefault && report.hasIssueFrom failOn then
    throw (.plain "issues at or above the failure severity were found")

def runAudit (s : Invocation) : Command Unit := do
  let c ← s.config
  let c := match s.options.get? "parallel" with
    | some _ => { c with analysis := { c.analysis with parallel := s.options.isOn "parallel" } }
    | none => c
  let minimum ← Command.ofExcept (s.severity "min-severity")
  let failOn ← Command.ofExcept (s.severity "fail-on")
  let paths := if s.operands.isEmpty then c.modules.paths else s.operands
  let modules ← discover c (if paths.isEmpty then ["."] else paths)
  let a ← s.auditor c
  let t := s.target a modules
  let p ← Printer.create s c
  if modules.isEmpty && t.settingsPath == "" then noModules p
  else s.auditModules c a p t minimum failOn

end CommandLine.Invocation

/-! ### Descriptors and parameters -/

def ParamLayer.toToon (l : ParamLayer) : Json :=
  .object [("Platform", .string l.platform.display),
    ("Params", .array (l.values.map fun (name, value) =>
      .object [("Name", .string name), ("Value", Toon.integer value)]))]

def Params.table (s : Params) : Table :=
  { title := "Parameters"
    headers := ["Name", "Platform", "Value"]
    rows := s.layers.flatMap fun l => l.values.map fun (name, value) =>
      [name, l.platform.display, toString value]
    footer := [toString s.names.length ++ " parameters", "", ""]
    data := some ⟨s.toJson, some (.array (s.layers.map ParamLayer.toToon))⟩ }

def Params.tableFor (s : Params) (p : Platform) : Except Failure Table := do
  let values ← s.names.mapM fun name => do
    let value ← s.getFor name p
    .ok (name, value)
  .ok
    { title := "Parameters for " ++ p.display
      headers := ["Name", "Value"]
      rows := values.map fun (name, value) => [name, toString value]
      data := some ⟨.object (values.map fun (name, value) => (name, .int value)),
        some (.object (values.map fun (name, value) => (name, Toon.integer value)))⟩ }

namespace CommandLine.Invocation

def runDescriptorsList (s : Invocation) : Command Unit := do
  let c ← s.config
  let a ← s.auditor c
  let platform := Platform.parse (s.options.text "platform")
  let inArea (d : Descriptor) : Bool := (s.options.text? "area").all fun area => d.hasArea ⟨area⟩
  let ds := a.catalog.list.filter fun d =>
    inArea d && d.isApplicable platform (s.options.text "runtime-version")
  (← Printer.create s c).print (Descriptor.listing ds).view

def runDescriptorsShow (s : Invocation) : Command Unit := do
  let id := Text.upper (s.operands.headD "")
  if id == "" then throw (.plain "descriptor id is required")
  let c ← s.config
  let a ← s.auditor c
  let d ← Command.ofExcept (a.catalog.lookup id)
  (← Printer.create s c).print (d.view (a.catalog.canFix d.id))

def runParams (s : Invocation) : Command Unit := do
  let c ← s.config
  let params := (← s.auditor c).registry.params
  let p ← Printer.create s c
  match s.options.text? "platform" with
  | none => p.print params.table.view
  | some name =>
    let platform := Platform.parse name
    if !platform.isKnown then throw (.plain ("unknown platform " ++ Text.quoted name))
    p.print (← Command.ofExcept (params.tableFor platform)).view

/-! ### Saved reports and modules -/

def requiredPath (s : Invocation) (what : String) : Except Failure String :=
  match s.operands.headD "" with
  | "" => .error (.plain (what ++ " path is required"))
  | path => .ok path

def selection (s : Invocation) (r : Report) : List Issue :=
  match s.options.text? "id", s.options.text? "category" with
  | some id, _ => r.ofDescriptor id
  | none, some category => r.inCategory ⟨category⟩
  | none, none => []

def runReportShow (s : Invocation) : Command Unit := do
  let path ← Command.ofExcept (s.requiredPath "report")
  let minimum ← Command.ofExcept (s.severity "min-severity")
  let report ← Command.ofExcept (Report.load (← Command.disk) path)
  let c ← s.config
  let p ← Printer.create s c
  if !report.isValid then
    p.notify .warning "Report is incomplete: some modules failed or were cancelled"
  p.print (IssuesView.view
    { report, minimum, selection := s.selection report, showTrees := s.options.isOn "tree" })

def runReportValidate (s : Invocation) : Command Unit := do
  let path ← Command.ofExcept (s.requiredPath "report")
  let bytes ← Command.ofExcept (Failure.ofIo ((← Command.disk).read path))
  match Report.validate (Text.ofBytes bytes) with
  | .ok _ => Command.writeStyled s .green ("Report valid: " ++ path)
  | .error f =>
    Command.writeStyled s .red "Report validation failed:"
    Command.write ("  - " ++ f.message ++ "\n")
    throw f

/-! ### Modules -/

def showCallers (s : Invocation) (c : Config) (p : Printer) (g : CallGraph) (method : String) :
    Command Unit := do
  let depth := s.options.number "depth"
  let root := g.hierarchy method (if depth ≤ 0 then c.analysis.callDepth else depth)
  if !root.hasChildren then p.notify .warning ("No callers of " ++ method)
  p.print (root.callersView method)

def runGraph (s : Invocation) : Command Unit := do
  let c ← s.config
  let modules ← discover c s.paths
  let p ← Printer.create s c
  if modules.isEmpty then noModules p
  else
    let (g, failures) ← Command.within "building call graph"
      (Analyzer.Code.callGraph (← Command.disk) modules s.isCanceled)
    failures.forM fun (path, f) => p.notify .warning ("Skipped " ++ path ++ ": " ++ f.message)
    match s.options.text? "method" with
    | some method => s.showCallers c p g method
    | none => p.print g.stats.view

def runDump (s : Invocation) : Command Unit := do
  let path ← Command.ofExcept (s.requiredPath "module")
  let m ← Command.ofExcept (LoadedModule.load (← Command.disk) path)
  let c ← s.config
  (← Printer.create s c).print (Listing.view ⟨m.content, s.options.isOn "calls-only"⟩)

end CommandLine.Invocation

/-! ### The configuration and the cache -/

def CacheStats.data (s : CacheStats) : ViewData :=
  ⟨.object [("entries", .nat s.entries), ("total_size", .nat s.totalSize),
      ("oldest_age", .int s.oldestAge.nanos), ("newest_age", .int s.newestAge.nanos)],
    some (.object [("Entries", .nat s.entries), ("TotalSize", .nat s.totalSize),
      ("OldestAge", .string s.oldestAge.text), ("NewestAge", .string s.newestAge.text)])⟩

def CacheStats.table (s : CacheStats) (directory : String) : Table :=
  let age (what : String) (d : Duration) : List String := [what, (d.round 1000000000).text]
  { title := "Cache"
    headers := ["Metric", "Value"]
    rows := [["Directory", directory], ["Entries", toString s.entries],
      ["Size", toString s.totalSize ++ " bytes"]] ++
      (if s.entries == 0 then [] else [age "Oldest" s.oldestAge, age "Newest" s.newestAge])
    data := some s.data }

namespace CommandLine.Invocation

/-! ### The configuration -/

def checkedConfig (s : Invocation) : Command (Option String) := do
  let (c, source) ← s.configFile
  let _ ← s.auditor { c with cache := { c.cache with enabled := false } }
  return source

def runConfigValidate (s : Invocation) : Command Unit := do
  let source ← tryCatch s.checkedConfig fun f => do
    Command.writeStyled s .red "Configuration validation failed:"
    Command.write ("  - " ++ f.message ++ "\n")
    throw f
  match source with
  | some path => Command.writeStyled s .green ("Configuration valid: " ++ path)
  | none => Command.writeStyled s .yellow "No config file found. Default configuration is valid."

def runConfigShow (s : Invocation) : Command Unit := do
  let (c, source) ← s.configFile
  Command.write (match source with
    | some path => "# Configuration from: " ++ path ++ "\n\n"
    | none => "# Default configuration (no config file found)\n")
  Command.write c.render

/-! ### The cache -/

def openCache (c : Config) : Command Cache := do
  let (cache, d) ← Command.ofExcept (Cache.create c.cache.dir c.cache.ttl (← Command.disk))
  Command.setDisk d
  return cache

def cacheStats (s : Invocation) (cache : Cache) : Command CacheStats := do
  Command.within "reading cache" (cache.stats s.env.fileAge (← Command.disk))

def runCacheStats (s : Invocation) : Command Unit := do
  let c ← s.config
  let stats ← s.cacheStats (← openCache c)
  (← Printer.create s c).print (stats.table c.cache.dir).view

def runCacheClear (s : Invocation) : Command Unit := do
  let c ← s.config
  let cache ← openCache c
  let stats ← s.cacheStats cache
  Command.setDisk (cache.clear (← Command.disk))
  (← Printer.create s c).notify .success
    ("Removed " ++ toString stats.entries ++ " cached scan(s) from " ++ c.cache.dir)

def dropEntry (cache : Cache) (path : String) : Command Unit := do
  Command.setDisk (← Command.within ("invalidating " ++ path)
    (cache.invalidate (Analyzer.Code.cacheKey path) (← Command.disk)))

def runCacheInvalidate (s : Invocation) : Command Unit := do
  let c ← s.config
  let modules ← discover c s.paths
  let cache ← openCache c
  modules.forM (dropEntry cache)
  (← Printer.create s c).notify .success ("Invalidated " ++ toString modules.length ++ " module(s)")

end CommandLine.Invocation

/-! ### Watches

After every batch the module files are found and audited anew, the settings only when their file is
in it. -/

def Watcher.categories (w : Watcher) (changed : List String) : List Category :=
  [Category.code, Category.assembly] ++ (if changed.any w.isSettings then [Category.settings] else [])

def Watcher.reaudit (w : Watcher) (a : Auditor) (env : Environment) (report : Report) (changed : List String)
    (isCanceled : Bool) (d : Disk) : AuditState × Option Failure :=
  match Scan.discover d w.roots w.included w.excluded with
  | .error f => ({ report, disk := d }, some f)
  | .ok modulePaths =>
    a.run env { w.target with modulePaths, categories := w.categories changed } (some report) isCanceled d

namespace CommandLine

structure Watching where
  watcher : Watcher
  auditor : Auditor
  report : Report
  printer : Printer
  minimum : Severity

def Watching.display (w : Watching) : Command Unit :=
  tryCatch (w.printer.print (IssuesView.view { report := w.report, minimum := w.minimum })) fun f =>
    w.printer.notify .error ("Rendering report: " ++ f.message)

def Watching.update (w : Watching) (env : Environment) (changed : List String) : Command Watching := do
  let (state, failure) := w.watcher.reaudit w.auditor env w.report changed false (← Command.disk)
  modify fun c => { c with disk := state.disk, log := c.log ++ state.log }
  let w := { w with report := state.report }
  match failure with
  | some f => w.printer.notify .error ("Re-audit failed: " ++ f.message)
  | none =>
    w.printer.notify .info ("\nChanged: " ++ toString changed.length ++ " file(s), re-audited")
    w.display
  return w

def Invocation.runWatch (s : Invocation) : Command Watching := do
  let c ← s.config
  let minimum ← Command.ofExcept (s.severity "min-severity")
  let d ← Command.disk
  let roots := s.paths.map d.absolute
  let modules ← discover c roots
  let auditor ← s.auditor c
  let t := auditor.target modules
  let t := { t with
    platform := (s.options.text? "platform").elim t.platform Platform.parse
    settingsPath := (s.options.text? "settings").elim t.settingsPath d.absolute }
  let report ← s.audit auditor t
  let printer ← Printer.create s c
  let debounce := ((s.options.get? "debounce").bind Duration.parse?).getD Watcher.defaultDebounce
  let w : Watching :=
    { watcher := Watcher.create auditor t roots debounce, auditor, report, printer, minimum }
  w.display
  printer.notify .info ("Watching " ++ String.intercalate ", " roots ++ " (Ctrl+C to stop)")
  match w.watcher.directories (← Command.disk) with
  | (_, some f) => throw f
  | (_, none) => return w

end CommandLine

end BytecodeAudit
