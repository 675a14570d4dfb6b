import BytecodeAudit.Auditor

/-!
# Watching files

A watcher collects the changes that can alter a report and hands them out once they have all been
quiet for a while. It reads no clock: every input brings its time.
-/

namespace BytecodeAudit

inductive FileChange where
  | write
  | create
  | remove
  | rename
  /-- Only attributes changed, which no report shows. -/
  | attributes
deriving DecidableEq, Repr, Inhabited

structure FileEvent where
  path : String
  changes : List FileChange
deriving DecidableEq, Repr, Inhabited

def FileEvent.isChange (e : FileEvent) : Bool := e.changes.any (· != .attributes)

structure Watcher where
  target : AuditTarget := {}
  roots : List String := []
  included : List String := []
  excluded : List String := []
  debounce : Duration := ⟨0⟩
  /-- The changes that were not handed out yet, by path and in ascending order, each with the time
  of its last event. -/
  pending : List (String × Instant) := []

namespace Watcher

def defaultDebounce : Duration := Duration.millis 500

/-- A watcher of an audit of some roots. A quiet time that is not positive stands for the default
one. -/
def create (a : Auditor) (target : AuditTarget) (roots : List String) (debounce : Duration) : Watcher :=
  { target, roots, included := a.config.modules.included, excluded := a.config.modules.excluded
    debounce := if debounce.nanos ≤ 0 then defaultDebounce else debounce }

/-! ### What is watched -/

/-- Whether the patterns exclude a path inside a root or, of a directory, what it holds. -/
def excludes (w : Watcher) (root path : String) (isDirectory : Bool) : Bool :=
  match Path.relative root path with
  | none => false
  | some rel =>
    !rel.startsWith ".." && Glob.anyMatch w.excluded (if isDirectory then rel ++ "/_" else rel)

def isSettings (w : Watcher) (path : String) : Bool :=
  w.target.settingsPath != "" && Path.clean path == Path.clean w.target.settingsPath

def isRelevant (w : Watcher) (path : String) : Bool :=
  w.isSettings path ||
    ((Module.isModulePath path || Module.isSymbolsPath path) &&
      w.roots.all fun root => !w.excludes root path false)

def steps (root path : String) : List String :=
  let elements := Path.elements ((Path.relative root path).getD "")
  (List.range elements.length).map fun n =>
    Path.join [root, String.intercalate "/" (elements.take (n + 1))]

def entersDirectory (w : Watcher) (root path : String) : Bool :=
  path == root || (steps root path).all fun step => !w.excludes root step true

def directoriesOf (w : Watcher) (d : Disk) (root : String) : Except Failure (List String) := do
  match ← Failure.ofIo (d.stat root) with
  | .file _ => .ok [Path.directory root]
  | .directory =>
    .ok ((d.walkFrom root).filterMap fun (path, node) =>
      if node == .directory && w.entersDirectory root path then some (Path.clean path) else none)

def settingsDirectory (w : Watcher) (d : Disk) : Except Failure (List String) :=
  if w.target.settingsPath == "" then .ok []
  else
    let dir := Path.directory w.target.settingsPath
    match d.find dir with
    | .ok _ => .ok [dir]
    | .error reason => .error (.unwatchable reason)

def gather : List (Except Failure (List String)) → List String × Option Failure
  | [] => ([], none)
  | .error f :: _ => ([], some f)
  | .ok found :: rest =>
    let (more, f) := gather rest
    (found ++ more, f)

/-- The directories that are watched, each once and in ascending order, up to the first failure. -/
def directories (w : Watcher) (d : Disk) : List String × Option Failure :=
  let (found, f) := gather (w.roots.map (w.directoriesOf d) ++ [w.settingsDirectory d])
  (found.eraseDups.mergeSort (Text.rank · ≤ Text.rank ·), f)

/-! ### Changes -/

/-- How a change of a file is noticed: under the name of the watched directory that holds it. -/
def notice (directories : List String) (path : String) : Option FileEvent :=
  (directories.find? (· == Path.directory path)).map fun dir => ⟨dir ++ "/" ++ Path.base path, [.write]⟩

/-- Notes a change of a path at some time. The time of an earlier one is forgotten. -/
def note (path : String) (now : Instant) (pending : List (String × Instant)) : List (String × Instant) :=
  Text.place path now (fun _ => now) pending

def observe (w : Watcher) (now : Instant) (e : FileEvent) : Watcher :=
  if e.isChange && w.isRelevant e.path then { w with pending := note e.path now w.pending } else w

def isSettling (w : Watcher) (now : Instant) : Bool :=
  w.pending.any fun (_, t) => (now.since t).nanos < w.debounce.nanos

/-- Hands out the pending changes, unless one of them is still settling. -/
def takeReady (w : Watcher) (now : Instant) : List String × Watcher :=
  if w.isSettling now then ([], w) else (w.pending.map (·.1), { w with pending := [] })

end Watcher

inductive WatchInput where
  | event (now : Instant) (e : FileEvent)
  | poll (now : Instant)
deriving DecidableEq, Repr

def Watcher.feed (w : Watcher) : List WatchInput → List (List String) × Watcher
  | [] => ([], w)
  | .event now e :: rest => (w.observe now e).feed rest
  | .poll now :: rest =>
    let (batch, w) := w.takeReady now
    let (batches, w) := w.feed rest
    (if batch.isEmpty then batches else batch :: batches, w)

end BytecodeAudit
