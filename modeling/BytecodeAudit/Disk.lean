import BytecodeAudit.Text.Basic

/-!
# The file tree

A file tree as a value: directories and files by their absolute place, and a working directory that
relative paths are read from. Every function that fails says what was tried, on which path as it was
given, and why.
-/

namespace BytecodeAudit

/-! ### Paths

`clean` is the shortest spelling of a path: no empty and no `.` elements, no `..` behind another
element. -/

namespace Path

def elements (path : String) : List String :=
  (path.toList.splitOn '/').map String.ofList

def isAbsolute (path : String) : Bool := path.toList.head? == some '/'

/-- One element onto the cleaned elements before it, which are held in reverse. -/
def pushElement (rooted : Bool) (stack : List String) (element : String) : List String :=
  if element == "" || element == "." then stack
  else if element == ".." then
    match stack with
    | [] => if rooted then [] else [".."]
    | top :: rest => if top == ".." then ".." :: stack else rest
  else element :: stack

def cleanElements (path : String) : List String :=
  ((elements path).foldl (pushElement (isAbsolute path)) []).reverse

def clean (path : String) : String :=
  let body := String.intercalate "/" (cleanElements path)
  if isAbsolute path then "/" ++ body else if body == "" then "." else body

def join (parts : List String) : String :=
  match parts.filter (· != "") with
  | [] => ""
  | parts => clean (String.intercalate "/" parts)

def split (path : String) : String × String :=
  let cs := path.toList.reverse
  (String.ofList (cs.dropWhile (· != '/')).reverse, String.ofList (cs.takeWhile (· != '/')).reverse)

def directory (path : String) : String := clean (split path).1

def base (path : String) : String :=
  if path == "" then "."
  else
    let cs := path.toList.reverse.dropWhile (· == '/')
    if cs.isEmpty then "/" else String.ofList (cs.takeWhile (· != '/')).reverse

def extension (path : String) : String :=
  let cs := path.toList.reverse.takeWhile (· != '/')
  match cs.dropWhile (· != '.') with
  | [] => ""
  | _ => String.ofList ('.' :: (cs.takeWhile (· != '.')).reverse)

def withoutExtension (path : String) : String :=
  String.ofList (path.toList.take (path.length - (extension path).length))

def absolute (cwd path : String) : String :=
  if isAbsolute path then clean path else join [cwd, path]

def dropCommon : List String → List String → List String × List String
  | a :: as, b :: bs => if a == b then dropCommon as bs else (a :: as, b :: bs)
  | as, bs => (as, bs)

/-- A path as seen from a directory; `none` when it cannot be told. -/
def relative (base target : String) : Option String :=
  if isAbsolute base != isAbsolute target then none
  else
    let (up, down) := dropCommon (cleanElements base) (cleanElements target)
    if up.contains ".." then none
    else
      match up.map (fun _ => "..") ++ down with
      | [] => some "."
      | es => some (String.intercalate "/" es)

end Path

/-! ### Trees -/

inductive IoReason where
  | noSuchFile
  | notDirectory
  | isDirectory
  | notEmpty
deriving DecidableEq, Repr

def IoReason.message : IoReason → String
  | .noSuchFile => "no such file or directory"
  | .notDirectory => "not a directory"
  | .isDirectory => "is a directory"
  | .notEmpty => "directory not empty"

structure IoError where
  action : String
  path : String
  reason : IoReason
deriving DecidableEq, Repr

def IoError.message (e : IoError) : String :=
  e.action ++ " " ++ e.path ++ ": " ++ e.reason.message

abbrev Bytes := List UInt8

inductive DiskNode where
  | file (content : Bytes)
  | directory
deriving DecidableEq, Repr

abbrev Place := List String

/-- A file tree. Later entries for a place do not count; the root is always a directory. -/
structure Disk where
  cwd : Place := []
  nodes : List (Place × DiskNode) := []
deriving Repr

namespace Disk

def at? (d : Disk) (p : Place) : Option DiskNode :=
  if p.isEmpty then some .directory else d.nodes.lookup p

def put (d : Disk) (p : Place) (n : DiskNode) : Disk :=
  { d with nodes := (p, n) :: d.nodes.filter (·.1 != p) }

def erase (d : Disk) (p : Place) : Disk :=
  { d with nodes := d.nodes.filter fun (q, _) => !p.isPrefixOf q }

/-- The places directly below a directory, by name in ascending order. -/
def childNames (d : Disk) (p : Place) : List String :=
  let names := d.nodes.filterMap fun (q, _) =>
    if q.length == p.length + 1 && p.isPrefixOf q then q.getLast? else none
  names.mergeSort (Text.rank · ≤ Text.rank ·)

/-- Follows the elements of a path from a place. Every element but the last must be a directory. -/
def follow (d : Disk) (p : Place) : List String → Except IoReason Place
  | [] => .ok p
  | e :: es =>
    if e == "" || e == "." then
      match d.at? p with
      | some (.file _) => .error .notDirectory
      | _ => follow d p es
    else if e == ".." then
      match d.at? p with
      | some (.file _) => .error .notDirectory
      | _ => follow d p.dropLast es
    else
      match d.at? p with
      | some .directory =>
        let q := p ++ [e]
        if es.isEmpty then .ok q
        else
          match d.at? q with
          | none => .error .noSuchFile
          | some _ => follow d q es
      | some (.file _) => .error .notDirectory
      | none => .error .noSuchFile

/-- The place that a path names. The place itself need not exist. -/
def place (d : Disk) (path : String) : Except IoReason Place :=
  if path == "" then .error .noSuchFile
  else follow d (if Path.isAbsolute path then [] else d.cwd) (Path.elements path)

def find (d : Disk) (path : String) : Except IoReason (Place × DiskNode) := do
  let p ← d.place path
  match d.at? p with
  | some n => .ok (p, n)
  | none => .error .noSuchFile

def during {α : Type} (action path : String) : Except IoReason α → Except IoError α
  | .ok a => .ok a
  | .error reason => .error ⟨action, path, reason⟩

def isPresent (d : Disk) (path : String) : Bool :=
  match d.find path with
  | .ok _ => true
  | .error _ => false

def stat (d : Disk) (path : String) : Except IoError DiskNode :=
  during "stat" path ((d.find path).map (·.2))

def read (d : Disk) (path : String) : Except IoError Bytes :=
  match d.find path with
  | .ok (_, .file content) => .ok content
  | .ok (_, .directory) => .error ⟨"read", path, .isDirectory⟩
  | .error reason => .error ⟨"open", path, reason⟩

def write (d : Disk) (path : String) (content : Bytes) : Except IoError Disk :=
  match d.place path with
  | .error reason => .error ⟨"open", path, reason⟩
  | .ok p =>
    match d.at? p with
    | some .directory => .error ⟨"open", path, .isDirectory⟩
    | some (.file _) => .ok (d.put p (.file content))
    | none =>
      match d.at? p.dropLast with
      | some .directory => .ok (d.put p (.file content))
      | some (.file _) => .error ⟨"open", path, .notDirectory⟩
      | none => .error ⟨"open", path, .noSuchFile⟩

def makePlace (d : Disk) (done : Place) : List String → Except IoReason Disk
  | [] => .ok d
  | e :: es =>
    let p := done ++ [e]
    match d.at? p with
    | some .directory => makePlace d p es
    | some (.file _) => .error .notDirectory
    | none => makePlace (d.put p .directory) p es

def plainPlace (d : Disk) (path : String) : Place :=
  Path.cleanElements (if Path.isAbsolute path then path
    else "/" ++ String.intercalate "/" (d.cwd ++ [path]))

def makeDirectories (d : Disk) (path : String) : Except IoError Disk :=
  during "mkdir" path (d.makePlace [] (d.plainPlace path))

def remove (d : Disk) (path : String) : Except IoError Disk :=
  match d.find path with
  | .error reason => .error ⟨"remove", path, reason⟩
  | .ok (p, .file _) => .ok (d.erase p)
  | .ok (p, .directory) =>
    if (d.childNames p).isEmpty then .ok (d.erase p) else .error ⟨"remove", path, .notEmpty⟩

/-- Removes a path and everything below it; a path that names nothing is removed already. -/
def removeAll (d : Disk) (path : String) : Disk :=
  match d.find path with
  | .ok (p, _) => d.erase p
  | .error _ => d

def placePath (p : Place) : String := "/" ++ String.intercalate "/" p

def cwdPath (d : Disk) : String := placePath d.cwd

def absolute (d : Disk) (path : String) : String := Path.absolute d.cwdPath path

/-- The files below a place, each with the path it is reached by, in ascending order of names at
every level. -/
def walk (d : Disk) (fuel : Nat) (path : String) (p : Place) : List (String × DiskNode) :=
  match fuel with
  | 0 => []
  | n + 1 =>
    match d.at? p with
    | none => []
    | some (.file c) => [(path, .file c)]
    | some .directory =>
      (path, .directory) ::
        (d.childNames p).flatMap fun name => d.walk n (Path.join [path, name]) (p ++ [name])

def walkFrom (d : Disk) (path : String) : List (String × DiskNode) :=
  match d.find path with
  | .ok (p, _) => d.walk (d.nodes.length + 1) path p
  | .error _ => []

def empty (cwd : Place) : Disk :=
  { cwd, nodes := (List.range cwd.length).map fun i => (cwd.take (i + 1), .directory) }

def changedPlaces (old new : Disk) : List Place :=
  ((old.nodes ++ new.nodes).map (·.1)).eraseDups.filter fun p => old.at? p != new.at? p

end Disk

end BytecodeAudit
