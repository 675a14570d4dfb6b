import BytecodeAudit.Failure

/-!
# Repositories

A repository keeps snapshots of a directory: what was committed, what is staged for the next commit,
and which commit the directory is at. `describe` names its commit and branch, and whether tracked
files differ from that commit.
-/

namespace BytecodeAudit

/-! ### Ignored paths

A rule of an ignore file holds below the directory of the file. The last rule that fits a path
decides; one that starts with `!` takes a path back.

* A rule without a slash fits a path when it fits the name of the file or of a directory above it.
* A rule with a slash is compared with the path part by part; `**` stands for any number of
  directories.
* A rule that ends in a slash fits directories only.

A malformed pattern fits nothing. -/

namespace Ignore

/-! ### Patterns for names -/

inductive Atom where
  | star
  | any
  | char (c : Char)
  | range (isNegated : Bool) (ranges : List (Char × Char))
deriving DecidableEq, Repr

/-- A character of a class, with what follows it; more has to follow. -/
def classChar? : List Char → Option (Char × List Char)
  | '\\' :: c :: d :: cs => some (c, d :: cs)
  | '\\' :: _ => none
  | c :: d :: cs => if c == '-' || c == ']' then none else some (c, d :: cs)
  | _ => none

/-- The ranges of a class up to its closing bracket, with what follows it; the length of the text is
fuel enough. -/
def ranges? (fuel : Nat) (done : List (Char × Char)) (cs : List Char) :
    Option (List (Char × Char) × List Char) :=
  match fuel with
  | 0 => none
  | n + 1 =>
    match cs, done with
    | ']' :: rest, _ :: _ => some (done.reverse, rest)
    | cs, done => do
      let (low, rest) ← classChar? cs
      match rest with
      | '-' :: rest =>
        let (high, rest) ← classChar? rest
        ranges? n ((low, high) :: done) rest
      | rest => ranges? n ((low, low) :: done) rest

/-- Reads a name pattern, if it is well-formed. Fuel of the length of the text suffices. -/
def atoms? (fuel : Nat) (cs : List Char) : Option (List Atom) :=
  match fuel with
  | 0 => some []
  | n + 1 =>
    match cs with
    | [] => some []
    | '*' :: cs => (atoms? n cs).map (.star :: ·)
    | '?' :: cs => (atoms? n cs).map (.any :: ·)
    | ['\\'] => none
    | '\\' :: c :: cs => (atoms? n cs).map (.char c :: ·)
    | '[' :: cs =>
      let (isNegated, cs) := match cs with
        | '^' :: cs => (true, cs)
        | cs => (false, cs)
      (ranges? (cs.length + 1) [] cs).bind fun (ranges, rest) =>
        (atoms? n rest).map (.range isNegated ranges :: ·)
    | c :: cs => (atoms? n cs).map (.char c :: ·)

def Atom.fits (a : Atom) (c : Char) : Bool :=
  match a with
  | .star | .any => true
  | .char d => c == d
  | .range isNegated ranges => ranges.any (fun (low, high) => low ≤ c && c ≤ high) != isNegated

def fitsAtoms : List Atom → List Char → Bool
  | [], name => name.isEmpty
  | .star :: as, name => (List.range (name.length + 1)).any fun n => fitsAtoms as (name.drop n)
  | a :: as, c :: name => a.fits c && fitsAtoms as name
  | _ :: _, [] => false

def fitsName (pattern name : String) : Bool :=
  match atoms? (pattern.length + 1) pattern.toList with
  | some as => fitsAtoms as name.toList
  | none => false

/-! ### Rules -/

structure Rule where
  domain : List String
  parts : List String
  isInclusion : Bool
  isForDirectories : Bool
deriving DecidableEq, Repr

namespace Rule

/-- The text without blanks at its end, unless the last one is escaped. -/
def withoutBlanks (cs : List Char) : List Char :=
  match cs.reverse with
  | ' ' :: '\\' :: _ => cs
  | reversed => (reversed.dropWhile (· == ' ')).reverse

def parse (domain : List String) (line : String) : Rule :=
  let (isInclusion, cs) := match line.toList with
    | '!' :: cs => (true, cs)
    | cs => (false, cs)
  let cs := withoutBlanks cs
  let (isForDirectories, cs) := match cs.reverse with
    | '/' :: reversed => (true, reversed.reverse)
    | _ => (false, cs)
  { domain, parts := (String.ofList cs).splitOn "/", isInclusion, isForDirectories }

/-- Whether a rule without a slash fits a path: the first part that fits decides. -/
def fitsSomePart (r : Rule) (pattern : String) (isDirectory : Bool) : List String → Bool
  | [] => false
  | name :: rest =>
    if fitsName pattern name then !(r.isForDirectories && !isDirectory && rest.isEmpty)
    else r.fitsSomePart pattern isDirectory rest

def behindFit? (pattern : String) : List String → Option (List String)
  | [] => none
  | name :: rest => if fitsName pattern name then some rest else behindFit? pattern rest

/-- Whether the parts of a rule fit a path from its start. `isFree` says that directories may be
passed over, `isMatched` that the last part fitted. -/
def fitsParts (r : Rule) (isDirectory isFree isMatched : Bool) : List String → List String → Bool
  | [], path => isMatched && !(r.isForDirectories && !isDirectory && path.isEmpty)
  | part :: parts, path =>
    if part == "" then r.fitsParts isDirectory false isMatched parts path
    else if part == "**" then
      match parts with
      | [] => isMatched && !(r.isForDirectories && !isDirectory && path.isEmpty)
      | parts => r.fitsParts isDirectory true isMatched parts path
    else if (part.splitOn "**").length != 1 then false
    else
      match path with
      | [] => false
      | name :: rest =>
        if isFree then
          match behindFit? part path with
          | some rest => r.fitsParts isDirectory false true parts rest
          | none => r.fitsParts isDirectory false false parts []
        else fitsName part name && r.fitsParts isDirectory false true parts rest

def fits (r : Rule) (path : List String) (isDirectory : Bool) : Bool :=
  r.domain.isPrefixOf path && r.domain.length < path.length &&
    let path := path.drop r.domain.length
    match r.parts with
    | [pattern] => r.fitsSomePart pattern isDirectory path
    | parts => r.fitsParts isDirectory false false parts path

def ofText (domain : List String) (text : String) : List Rule :=
  (text.splitOn "\n").filterMap fun line =>
    let cs := line.toList
    let cs := if cs.getLast? == some '\r' then cs.dropLast else cs
    let line := String.ofList cs
    if cs.head? == some '#' || (Text.trim line).isEmpty then none else some (parse domain line)

end Rule

def ignores (rules : List Rule) (path : List String) (isDirectory : Bool) : Bool :=
  ((rules.reverse.find? fun r => r.fits path isDirectory).map fun r => !r.isInclusion).getD false

end Ignore

/-! ### Snapshots and commits -/

abbrev Snapshot := List (String × Bytes)

namespace Snapshot

def get? (s : Snapshot) (path : String) : Option Bytes := s.lookup path

def insert (path : String) (content : Bytes) : Snapshot → Snapshot
  | [] => [(path, content)]
  | (p, c) :: rest =>
    if p == path then (p, content) :: rest
    else if path < p then (path, content) :: (p, c) :: rest
    else (p, c) :: insert path content rest

def erase (path : String) (s : Snapshot) : Snapshot := s.filter (·.1 != path)

def parts (path : String) : List String := path.splitOn "/"

def below (s : Snapshot) (directory : String) : Snapshot :=
  s.filterMap fun (path, content) =>
    match parts path with
    | first :: next :: rest =>
      if first == directory then some (String.intercalate "/" (next :: rest), content) else none
    | _ => none

def directories (s : Snapshot) : List String :=
  (s.filterMap fun (path, _) =>
    match parts path with
    | first :: _ :: _ => some first
    | _ => none).eraseDups

def ignoreFile : String := ".gitignore"

/-- The rules of all ignore files, except those in directories that the file above them ignores. -/
def ignoreRules (fuel : Nat) (domain : List String) (s : Snapshot) : List Ignore.Rule :=
  let own := ((s.get? ignoreFile).map fun content => Ignore.Rule.ofText domain (Text.ofBytes content)).getD []
  match fuel with
  | 0 => own
  | n + 1 =>
    own ++ s.directories.flatMap fun directory =>
      let inner := domain ++ [directory]
      if Ignore.ignores own inner true then [] else ignoreRules n inner (s.below directory)

def ignores (s : Snapshot) (path : String) : Bool :=
  let depth := (s.map fun (path, _) => (parts path).length).foldl max 0
  Ignore.ignores (s.ignoreRules depth []) (parts path) false

def ofDirectory (d : Disk) (root : String) : Snapshot :=
  (d.walkFrom root).foldl (fun s (path, node) =>
    match node with
    | .file content => s.insert ((Path.relative root path).getD path) content
    | .directory => s) []

end Snapshot

structure Commit where
  hash : String
  files : Snapshot
deriving DecidableEq, Repr

inductive Head where
  | branch (name : String)
  | detached (hash : String)
deriving DecidableEq, Repr

structure Repository where
  root : String
  head : Head
  branches : List (String × String) := []
  commits : List Commit := []
  staged : Snapshot := []
deriving Repr

structure WorkState where
  revision : String
  ref : String
  isDirty : Bool
deriving DecidableEq, Repr

def WorkState.display (s : WorkState) : String := if s.isDirty then s.revision ++ "-dirty" else s.revision

namespace Repository

def init (root branch : String) : Repository := { root, head := .branch branch }

def commit? (r : Repository) (hash : String) : Option Commit := r.commits.find? (·.hash == hash)

def headHash? (r : Repository) : Option String :=
  match r.head with
  | .branch name => r.branches.lookup name
  | .detached hash => some hash

def headFiles (r : Repository) : Snapshot := ((r.headHash?.bind r.commit?).map (·.files)).getD []

def differs (r : Repository) (work : Snapshot) (path : String) : Bool :=
  r.staged.get? path != work.get? path && !work.ignores path

def isStaged (r : Repository) (path : String) : Bool := r.staged.get? path != r.headFiles.get? path

/-- Whether a tracked path differs from what is staged or committed. A path that is no longer staged
and is there again is not tracked. -/
def isChanged (r : Repository) (work : Snapshot) (path : String) : Bool :=
  if r.differs work path then (r.staged.get? path).isSome else r.isStaged path

def isDirty (r : Repository) (work : Snapshot) : Bool :=
  ((r.staged ++ r.headFiles).map (·.1)).any (r.isChanged work)

def state (r : Repository) (work : Snapshot) : Except Failure WorkState :=
  match r.headHash? with
  | none => .error .noCommits
  | some revision =>
    .ok
      { revision
        ref := match r.head with
          | .branch name => name
          | .detached hash => hash
        isDirty := r.isDirty work }

def holding? (rs : List Repository) (d : Disk) (path : String) : Option Repository :=
  let target := Path.cleanElements (d.absolute path)
  (rs.filter fun r => (Path.cleanElements (d.absolute r.root)).isPrefixOf target).foldl (fun best r =>
    match best with
    | some b => if (d.absolute b.root).length < (d.absolute r.root).length then some r else some b
    | none => some r) none

def describe (rs : List Repository) (d : Disk) (path : String) : Except Failure WorkState :=
  match holding? rs d path with
  | none => .error .noRepository
  | some r => r.state (Snapshot.ofDirectory d r.root)

/-- The revision of the repository that holds a path; empty when there is none. -/
def revisionOf (rs : List Repository) (d : Disk) (path : String) : String :=
  match describe rs d path with
  | .ok s => s.display
  | .error _ => ""

/-! ### Changes -/

/-- Stages a file as it is, present or gone, where it differs from what is staged for the next
commit. -/
def stageFile (r : Repository) (work : Snapshot) (path : String) : Except Failure Repository :=
  if !r.differs work path && r.isStaged path then .ok r
  else
    match work.get? path, r.staged.get? path with
    | some content, _ => .ok { r with staged := r.staged.insert path content }
    | none, some _ => .ok { r with staged := r.staged.erase path }
    | none, none => .error (.plain "entry not found")

def stage (r : Repository) (d : Disk) (path : String) : Except Failure Repository :=
  let work := Snapshot.ofDirectory d r.root
  let path := Path.clean path
  let isBelow (p : String) : Bool := path == "." || (path ++ "/").toList.isPrefixOf p.toList
  match d.find (Path.join [r.root, path]) with
  | .ok (_, .directory) =>
    let changed := (((r.staged ++ work).map (·.1)).eraseDups).filter fun p => isBelow p && r.differs work p
    changed.foldlM (fun r p => r.stageFile work p) r
  | _ => r.stageFile work path

def commit (r : Repository) (hash : String) : Repository :=
  let r := { r with commits := r.commits ++ [Commit.mk hash r.staged] }
  match r.head with
  | .branch name => { r with branches := (name, hash) :: r.branches.filter (·.1 != name) }
  | .detached _ => { r with head := .detached hash }

def hasUnstaged (r : Repository) (work : Snapshot) : Bool := r.staged.any fun (path, _) => r.differs work path

/-- Brings the directory to a commit, on no branch; other files are gone then. Changes that are not
staged keep it from being changed, and the head moves all the same. -/
def detach (r : Repository) (hash : String) (d : Disk) : Except Failure Disk × Repository :=
  let work := Snapshot.ofDirectory d r.root
  let moved := { r with head := .detached hash }
  if r.hasUnstaged work then (.error (.plain "worktree contains unstaged changes"), moved)
  else
    let placed (path : String) : String := Path.join [r.root, path]
    let cleared := work.foldl (fun d f => d.removeAll (placed f.1)) d
    let written := moved.headFiles.foldl (fun d f =>
      ((d.makeDirectories (Path.directory (placed f.1))).toOption.bind fun d =>
        (d.write (placed f.1) f.2).toOption).getD d) cleared
    (.ok written, { moved with staged := moved.headFiles })

def isBranchPart (part : String) : Bool :=
  let has (t : String) : Bool := (part.splitOn t).length != 1
  !(part.isEmpty || part.startsWith "." || part.startsWith "-" || part.endsWith "." || part.endsWith ".lock" ||
    part == "@" || has ".." || has "@\x7b" ||
    part.any fun c => c.toNat < 0x20 || c.toNat == 0x7f || "~^:?*[ \\".toList.contains c)

def isBranchName (name : String) : Bool := (name.splitOn "/").all isBranchPart

def branchOff (r : Repository) (name : String) : Except Failure Repository :=
  if !isBranchName name then .error (.plain "invalid reference name")
  else if (r.branches.lookup name).isSome then
    .error (.plain ("a branch named " ++ Text.quoted ("refs/heads/" ++ name) ++ " already exists"))
  else
    match r.headHash? with
    | none => .error (.plain "reference not found")
    | some hash => .ok { r with branches := (name, hash) :: r.branches, head := .branch name }

end Repository

/-! ### Workspaces

A file tree with the repositories in it. Work goes on in the one that was made last. A commit is
named by its number. -/

structure Workspace where
  disk : Disk
  repositories : List Repository := []
  commitCount : Nat := 0

namespace Workspace

def commitName (n : Int) : String := "#" ++ toString n

/-- Makes a repository on a branch, with the directory if it is not there. -/
def init (w : Workspace) (root branch : String) : Except Failure Workspace := do
  let isSame (r : Repository) : Bool := w.disk.absolute r.root == w.disk.absolute root
  if !Repository.isBranchName branch then .error (.plain "invalid reference name")
  else if w.repositories.any isSame then .error (.plain "repository already exists")
  else
    let disk ← Failure.ofIo (w.disk.makeDirectories root)
    .ok { w with disk, repositories := Repository.init root branch :: w.repositories }

/-- Changes the repository of the work. A repository and a tree that were changed stay so when the
change fails on the way. -/
def change (w : Workspace) (f : Repository → Except Failure Disk × Repository) :
    Except Failure Unit × Workspace :=
  match w.repositories with
  | [] => (.error .nullEntry, w)
  | r :: rs =>
    match f r with
    | (.ok disk, r) => (.ok (), { w with disk, repositories := r :: rs })
    | (.error e, r) => (.error e, { w with repositories := r :: rs })

def changeRepository (w : Workspace) (f : Repository → Except Failure Repository) :
    Except Failure Unit × Workspace :=
  w.change fun r =>
    match f r with
    | .ok r => (.ok w.disk, r)
    | .error e => (.error e, r)

def stage (w : Workspace) (path : String) : Except Failure Unit × Workspace :=
  w.changeRepository fun r => r.stage w.disk path

def commit (w : Workspace) : Except Failure Unit × Workspace :=
  match w.changeRepository fun r => .ok (r.commit (commitName (w.commitCount + 1))) with
  | (.ok _, w) => (.ok (), { w with commitCount := w.commitCount + 1 })
  | failed => failed

def branchOff (w : Workspace) (branch : String) : Except Failure Unit × Workspace :=
  w.changeRepository fun r => r.branchOff branch

/-- Moves to the commit of a number. Only commits that were made have one. -/
def detach (w : Workspace) (number : Int) : Except Failure Unit × Workspace :=
  if 1 ≤ number && number ≤ w.commitCount then w.change fun r => r.detach (commitName number) w.disk
  else (.error (.noCommit number w.commitCount), w)

/-- Makes a branch and moves to it; without a name, moves to the commit of a number. -/
def checkout (w : Workspace) (branch : String) (number : Int) : Except Failure Unit × Workspace :=
  if branch == "" then w.detach number else w.branchOff branch

def describe (w : Workspace) (path : String) : Except Failure WorkState :=
  Repository.describe w.repositories w.disk path

end Workspace

end BytecodeAudit
