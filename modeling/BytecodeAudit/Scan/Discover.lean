import BytecodeAudit.Bytecode.Codec

/-!
# Finding and opening module files

A directory stands for every module file below it that the patterns admit, any other path for
itself. Opening loads each file; one that fails is set aside and does not keep the others from
loading.
-/

namespace BytecodeAudit

/-! ### Path patterns

* `*` matches within a segment, `?` one character of a segment, `[a-z]`, `[^a-z]` and `[!a-z]` a
  character of a class;
* `**` as a whole segment matches any number of segments, and a trailing one also the path before
  its slash;
* `{a,b}` matches either alternative, and alternatives nest;
* a backslash takes the next character as it stands.

Matching keeps two places to go back to: a mismatch lets the last `*` take one more character of its
segment, or else the last `**` one more segment; an earlier `*` never takes more. -/

namespace Glob

inductive Verdict where
  | matched
  | unmatched
  | malformed
deriving DecidableEq, Repr, Inhabited

/-- The first verdict that decides: alternatives are tried until one matches or is malformed. -/
def Verdict.orElse (v : Verdict) (next : Unit → Verdict) : Verdict :=
  match v with
  | .unmatched => next ()
  | v => v

/-! ### Well-formed patterns -/

inductive Spot where
  | outside
  | opened
  | signed
  | inside
deriving DecidableEq, Repr

/-- Whether classes are closed and not empty, braces are paired and no backslash is last. `depth`
counts the open braces. -/
def isWellFormed (depth : Nat) (spot : Spot) : List Char → Bool
  | [] => spot == .outside && depth == 0
  | c :: cs =>
    match spot, c with
    | .opened, '^' | .opened, '!' => isWellFormed depth .signed cs
    | .opened, ']' | .signed, ']' => false
    | .inside, ']' => isWellFormed depth .outside cs
    | .outside, '[' => isWellFormed depth .opened cs
    | .outside, '\x7b' => isWellFormed (depth + 1) .outside cs
    | .outside, '\x7d' => if depth = 0 then false else isWellFormed (depth - 1) .outside cs
    | spot, '\\' =>
      match cs with
      | [] => false
      | _ :: cs => isWellFormed depth (if spot == .outside then .outside else .inside) cs
    | .outside, _ => isWellFormed depth .outside cs
    | _, _ => isWellFormed depth .inside cs

def refusal (pattern : List Char) : Verdict :=
  if isWellFormed 0 .outside pattern then .unmatched else .malformed

/-! ### Alternatives and classes -/

/-- The alternatives of a brace group from behind its opening brace, with what follows it. `depth`
counts the groups open inside, `cur` holds the current alternative, reversed. -/
def alternatives (depth : Nat) (done : List (List Char)) (cur : List Char) :
    List Char → Option (List (List Char) × List Char)
  | [] => none
  | '\\' :: c :: cs => alternatives depth done (c :: '\\' :: cur) cs
  | '\x7b' :: cs => alternatives (depth + 1) done ('\x7b' :: cur) cs
  | '\x7d' :: cs =>
    if depth = 0 then some ((cur.reverse :: done).reverse, cs)
    else alternatives (depth - 1) done ('\x7d' :: cur) cs
  | c :: cs =>
    if c == ',' && depth = 0 then alternatives depth (cur.reverse :: done) [] cs
    else alternatives depth done (c :: cur) cs

def behindClass? : List Char → Option (List Char)
  | [] => none
  | '\\' :: _ :: cs => behindClass? cs
  | ']' :: cs => some cs
  | _ :: cs => behindClass? cs

/-- Whether a class, from behind its opening bracket and sign, holds a character, with the pattern
from where that was decided. A range may start from `last`. -/
def classHolds (c : Char) (last : Option Char) : List Char → Bool × List Char
  | [] => (false, [])
  | ']' :: cs => (false, ']' :: cs)
  | '-' :: '\\' :: d :: cs =>
    match last with
    | some low => if low ≤ c && c ≤ d then (true, cs) else classHolds c none cs
    | none => if c == '-' then (true, '\\' :: d :: cs) else if c == d then (true, cs) else classHolds c (some d) cs
  | '-' :: d :: cs =>
    match last with
    | some low =>
      if d == ']' then (c == '-', d :: cs)
      else if low ≤ c && c ≤ d then (true, cs) else classHolds c none cs
    | none => if c == '-' then (true, d :: cs) else classHolds c (some '-') (d :: cs)
  | '\\' :: d :: cs => if c == d then (true, cs) else classHolds c (some d) cs
  | d :: cs => if c == d then (true, cs) else classHolds c (some d) cs

inductive ClassVerdict where
  /-- The character belongs to it; the rest of the pattern. -/
  | member (rest : List Char)
  /-- The character does not belong to it; the pattern from where that was decided. -/
  | stranger (rest : List Char)
  | malformed

def askClass (c : Char) (pattern : List Char) : ClassVerdict :=
  let (isNegated, body) := match pattern with
    | '^' :: cs => (true, cs)
    | '!' :: cs => (true, cs)
    | cs => (false, cs)
  match body with
  | [] => .malformed
  | ']' :: _ => .malformed
  | body =>
    let (holds, rest) := classHolds c none body
    if holds == isNegated then
      if rest.isEmpty then .malformed else .stranger rest
    else
      match behindClass? rest with
      | some rest => .member rest
      | none => .malformed

/-! ### Matching -/

/-- The patterns that match the empty rest of a path. Every group shortens the pattern, so fuel of
its length suffices. -/
def matchEmpty (fuel : Nat) (pattern : List Char) : Verdict :=
  match fuel with
  | 0 => .unmatched
  | n + 1 =>
    if ["", "*", "**", "/**", "**/", "/**/"].contains (String.ofList pattern) then .matched
    else
      match pattern with
      | '\x7b' :: cs =>
        match alternatives 0 [] [] cs with
        | some (alts, rest) =>
          alts.foldl (fun v alt => v.orElse fun _ => matchEmpty n (alt ++ rest)) .unmatched
        | none => .malformed
      | pattern => refusal pattern

def behindSlash : List Char → Option (List Char)
  | [] => none
  | '/' :: cs => some cs
  | _ :: cs => behindSlash cs

structure Place where
  pattern : List Char
  path : List Char

structure Walk where
  here : Place
  /-- Whether the pattern stands at the start of a segment, where `**` has its meaning. -/
  atStart : Bool := true
  /-- Behind the last `*`, with the first character that it did not take. -/
  star : Option Place := none
  /-- Behind the last `**`, with the first segment that it did not take. -/
  segments : Option Place := none

namespace Walk

/-- Goes on with the last `**` taking one more segment. -/
def moreSegments? (w : Walk) : Option Walk := do
  let p ← w.segments
  let path ← behindSlash p.path
  let p := { p with path }
  some { w with here := p, atStart := true, segments := some p }

def retry? (w : Walk) : Option Walk :=
  match w.star with
  | some ⟨pattern, c :: path⟩ =>
    if c == '/' then w.moreSegments?
    else some { w with here := ⟨pattern, path⟩, atStart := false, star := some ⟨pattern, path⟩ }
  | _ => w.moreSegments?

/-- Puts one alternative in the place of the pattern that is left, everywhere. An alternative counts
as the start of a segment. -/
def choose (w : Walk) (pattern : List Char) : Walk :=
  let put (p : Place) : Place :=
    { p with pattern := p.pattern.take (p.pattern.length - w.here.pattern.length) ++ pattern }
  { here := { w.here with pattern }
    atStart := true
    star := w.star.map put
    segments := w.segments.map put }

def takeStar (w : Walk) (pattern : List Char) : Walk :=
  let p := { w.here with pattern }
  { w with here := p, atStart := false, star := some p }

def takeSegments (w : Walk) (pattern : List Char) : Walk :=
  let p := { w.here with pattern }
  { w with here := p, star := none, segments := some p }

def run (fuel : Nat) (w : Walk) : Verdict :=
  match fuel with
  | 0 => .unmatched
  | n + 1 =>
    let mismatch (rest : List Char) : Verdict :=
      match w.retry? with
      | some w => run n w
      | none => refusal rest
    match w.here with
    | ⟨pattern, []⟩ => matchEmpty (pattern.length + 1) pattern
    | ⟨pattern, c :: path⟩ =>
      let literal (d : Char) (rest : List Char) : Verdict :=
        if c == d then run n { w with here := ⟨rest, path⟩, atStart := d == '/' } else mismatch pattern
      match pattern with
      | [] => mismatch []
      | '*' :: '*' :: rest =>
        match w.atStart, rest with
        | true, [] => .matched
        | true, '/' :: rest => run n (w.takeSegments rest)
        | _, rest => run n (w.takeStar rest)
      | '*' :: rest => run n (w.takeStar rest)
      | '?' :: rest =>
        if c == '/' then mismatch pattern else run n { w with here := ⟨rest, path⟩, atStart := false }
      | '[' :: rest =>
        match askClass c rest with
        | .member rest => run n { w with here := ⟨rest, path⟩, atStart := false }
        | .stranger rest => mismatch rest
        | .malformed => .malformed
      | '\x7b' :: rest =>
        match alternatives 0 [] [] rest with
        | some (alts, rest) =>
          alts.foldl (fun v alt => v.orElse fun _ => run n (w.choose (alt ++ rest))) .unmatched
        | none => .malformed
      | ['\\'] => .malformed
      | '\\' :: d :: rest => literal d rest
      | d :: rest => literal d rest

end Walk

/-- Enough steps for a pattern and a path of these lengths: between two opened groups every pair of
places to go back to comes up once, and the way from there is no longer than pattern and path
together. -/
def steps (pattern path : Nat) : Nat := Nat.pow (pattern + 2) 4 * Nat.pow (path + 2) 3

def isMatch (pattern path : String) : Bool :=
  let p := pattern.toList
  let n := path.toList
  Walk.run (steps p.length n.length) { here := ⟨p, n⟩ } == .matched

def anyMatch (patterns : List String) (path : String) : Bool :=
  patterns.any (isMatch · path)

end Glob

namespace Scan

/-- Whether the patterns admit a path below a directory. Excluding patterns come first; an empty
list of including patterns admits everything. -/
def isAdmitted (including excluding : List String) (path : String) : Bool :=
  !Glob.anyMatch excluding path && (including.isEmpty || Glob.anyMatch including path)

def modulesBelow (d : Disk) (including excluding : List String) (root : String) : List String :=
  (d.walkFrom root).filterMap fun (path, node) =>
    match node with
    | .directory => none
    | .file _ =>
      if Module.isModulePath path &&
          isAdmitted including excluding ((Path.relative root path).getD path)
      then some path else none

def expandPath (d : Disk) (including excluding : List String) (root : String) :
    Except Failure (List String) := do
  match ← Failure.ofIo (d.stat root) with
  | .file _ => .ok [root]
  | .directory => .ok (modulesBelow d including excluding root)

/-- The files that some paths stand for, each once and in ascending order. -/
def discover (d : Disk) (paths including excluding : List String) : Except Failure (List String) := do
  let found ← paths.mapM (expandPath d including excluding)
  .ok (found.flatten.eraseDups.mergeSort (Text.rank · ≤ Text.rank ·))

/-- The modules that could be loaded, in the order of their paths, and the failures of the others,
sorted by path. -/
structure Opened where
  modules : List LoadedModule := []
  failures : List (String × Failure) := []

def openAll (d : Disk) (paths : List String) : Opened :=
  let loaded := paths.map fun p => (p, LoadedModule.load d p)
  { modules := loaded.filterMap fun (_, r) => r.toOption
    failures := (loaded.filterMap fun (p, r) =>
        match r with
        | .ok _ => none
        | .error f => some (p, f)).mergeSort fun a b => Text.rank a.1 ≤ Text.rank b.1 }

/-- Loads module files, unless the work was cancelled. Nothing is cancelled when there is nothing to
load. -/
def openUnlessCanceled (d : Disk) (paths : List String) (isCanceled : Bool) :
    Except Failure Opened :=
  if isCanceled && !paths.isEmpty then .error .canceled else .ok (openAll d paths)

end Scan

/-! ### Opening at the same time

Each file has a worker that loads it and later records what came of it: a module goes into the slot
of its position, a failure behind those recorded before. -/

/-- How far the worker of a file has come. -/
inductive LoadProgress where
  | waiting
  | loaded (result : Except Failure LoadedModule)
  | recorded (slot : Option LoadedModule)

namespace LoadProgress

/-- A worker takes its turn: it loads its file, or records what came of that, with the failure if
there is one. -/
def advance (d : Disk) (path : String) : LoadProgress → LoadProgress × List (String × Failure)
  | .waiting => (.loaded (LoadedModule.load d path), [])
  | .loaded (.ok m) => (.recorded (some m), [])
  | .loaded (.error f) => (.recorded none, [(path, f)])
  | .recorded slot => (.recorded slot, [])

def remaining : LoadProgress → Nat
  | .waiting => 2
  | .loaded _ => 1
  | .recorded _ => 0

def slot : LoadProgress → Option LoadedModule
  | .recorded slot => slot
  | _ => none

end LoadProgress

/-- Files that are opened at the same time, with the failures in the order in which they were
recorded. -/
structure ParallelOpening where
  workers : List (String × LoadProgress)
  failures : List (String × Failure) := []

namespace ParallelOpening

def start (paths : List String) : ParallelOpening := { workers := paths.map (·, .waiting) }

def step (d : Disk) (p : ParallelOpening) (i : Nat) : ParallelOpening :=
  match p.workers[i]? with
  | none => p
  | some (path, x) => ⟨p.workers.set i (path, (x.advance d path).1), p.failures ++ (x.advance d path).2⟩

def run (d : Disk) (p : ParallelOpening) (turns : List Nat) : ParallelOpening := turns.foldl (step d) p

def isFinished (p : ParallelOpening) : Bool := p.workers.all (·.2.remaining == 0)

def modules (p : ParallelOpening) : List LoadedModule := p.workers.filterMap (·.2.slot)

end ParallelOpening

end BytecodeAudit
