import BytecodeAudit.Disk

/-!
# Failures

The causes for which an operation fails. Callers can ask what went wrong; only `message` puts causes
into words. Causes nest: `during` tells what was being done, and the load and module failures tell
for which file.
-/

namespace BytecodeAudit

/-! ### Platforms

The empty name is the default platform, for what is not bound to a target. -/

structure Platform where
  name : String
deriving DecidableEq, Repr, Inhabited

namespace Platform

def default : Platform := ⟨""⟩
def android : Platform := ⟨"android"⟩
def ios : Platform := ⟨"ios"⟩

def known : List Platform :=
  [⟨"windows"⟩, ⟨"macos"⟩, ⟨"linux"⟩, android, ios, ⟨"webgl"⟩]

def display (p : Platform) : String := if p == default then "default" else p.name

/-- Normalizes a platform name: blanks around it and case do not matter, and `default` is the
default platform. -/
def parse (s : String) : Platform :=
  let s := Text.lower (Text.trim s)
  if s == "default" then default else ⟨s⟩

def isKnown (p : Platform) : Bool := p == default || known.contains p

end Platform

/-! ### Log records -/

inductive LogLevel where
  | warning
  | error
deriving DecidableEq, Repr, Inhabited

def LogLevel.label : LogLevel → String
  | .warning => "WARN"
  | .error => "ERROR"

structure LogRecord where
  level : LogLevel
  message : String
  values : List (String × String) := []
deriving DecidableEq, Repr, Inhabited

def LogRecord.line (r : LogRecord) : String :=
  r.level.label ++ " " ++ r.message ++ String.join (r.values.map fun (k, v) => " " ++ k ++ "=" ++ v)

/-! ### Failures -/

inductive Failure where
  | duplicateDescriptor (id : String)
  | invalidDescriptorId (id : String)
  /-- No descriptor has this id; the suggestions are registered ids that look like it. -/
  | descriptorNotFound (id : String) (suggestions : List String)
  | parameterNotRegistered (name : String)
  | unknownSeverity (given : String)
  | io (error : IoError)
  | unwatchable (reason : IoReason)
  | noRepository
  | noCommits
  /-- Of this many commits none has a number. -/
  | noCommit (number : Int) (count : Nat)
  | malformed (detail : String)
  | invalidReport (detail : String)
  | unwritableTime (part range : String)
  /-- The containers of a document nest too deep, from one that opens with a mark on. -/
  | nestedTooDeep (mark : String)
  | unsupportedModuleFormat (version : Int)
  | unreadableSettings (path : String)
  | unwritableSettings (path : String)
  | noSettingValue (id : String)
  | notMapping (key part : String)
  /-- A null stands where an entry is needed, such as a caller in a tree. -/
  | nullEntry
  | unsupportedPlatform (platform : Platform)
  | notFixable (id : Option String)
  | canceled
  | deadlineExceeded
  | plain (text : String)
  | load (path : String) (cause : Failure)
  | module (path : String) (cause : Failure)
  | during (activity : String) (cause : Failure)
  | joined (causes : List Failure)
deriving Repr

namespace Failure

mutual

def message : Failure → String
  | .duplicateDescriptor id => "descriptor " ++ id ++ " is already registered"
  | .invalidDescriptorId id =>
    "invalid descriptor id " ++ Text.quoted id ++
      " (want three capitals and four digits, e.g. API0001)"
  | .descriptorNotFound id [] => "descriptor " ++ id ++ " not found"
  | .descriptorNotFound id suggestions =>
    "descriptor " ++ id ++ " not found (did you mean " ++ String.intercalate ", " suggestions ++
      "?)"
  | .parameterNotRegistered name => "parameter " ++ Text.quoted name ++ " not registered"
  | .unknownSeverity given => "unknown severity " ++ Text.quoted given
  | .io error => error.message
  | .unwatchable reason => reason.message
  | .noRepository => "repository does not exist"
  | .noCommits => "repository has no commits"
  | .noCommit number count =>
    "runtime error: index out of range [" ++ toString (number - 1) ++ "]" ++
      (if number < 1 then "" else " with length " ++ toString count)
  | .malformed detail => detail
  | .invalidReport detail => "invalid report document: " ++ detail
  | .unwritableTime part range =>
    "json: error calling MarshalJSON for type *time.Time: " ++ part ++ " outside of range " ++ range
  | .nestedTooDeep mark => "invalid character '" ++ mark ++ "' exceeded max depth"
  | .unsupportedModuleFormat version => "unsupported module format version: " ++ toString version
  | .unreadableSettings path => "unsupported settings format: " ++ path
  | .unwritableSettings path => "unsupported settings format: cannot rewrite " ++ path
  | .noSettingValue id => "issue " ++ id ++ " carries no settings value"
  | .notMapping key part =>
    "settings key " ++ Text.quoted key ++ ": " ++ Text.quoted part ++ " is not a mapping"
  | .nullEntry => "runtime error: invalid memory address or nil pointer dereference"
  | .unsupportedPlatform p => "unsupported platform: " ++ p.display
  | .notFixable none => "issue cannot be fixed automatically"
  | .notFixable (some id) => "issue cannot be fixed automatically: " ++ id
  | .canceled => "context canceled"
  | .deadlineExceeded => "context deadline exceeded"
  | .plain text => text
  | .load path cause => "load module " ++ path ++ ": " ++ cause.message
  | .module path cause => "module " ++ path ++ ": " ++ cause.message
  | .during activity cause => activity ++ ": " ++ cause.message
  | .joined causes => String.intercalate "\n" (messages causes)

def messages : List Failure → List String
  | [] => []
  | f :: fs => f.message :: messages fs

end

mutual

/-- A cause and every cause inside it, outermost first. -/
def chain : Failure → List Failure
  | .load path cause => .load path cause :: cause.chain
  | .module path cause => .module path cause :: cause.chain
  | .during activity cause => .during activity cause :: cause.chain
  | .joined causes => .joined causes :: chains causes
  | f => [f]

def chains : List Failure → List Failure
  | [] => []
  | f :: fs => f.chain ++ chains fs

end

def isMissingFile (f : Failure) : Bool :=
  f.chain.any fun
    | .io e => e.reason == .noSuchFile
    | .unwatchable reason => reason == .noSuchFile
    | _ => false

def isStop (f : Failure) : Bool :=
  f.chain.any fun
    | .canceled | .deadlineExceeded => true
    | _ => false

def ownKind? : Failure → Option String
  | .duplicateDescriptor _ => some "duplicate"
  | .invalidDescriptorId _ => some "invalid_id"
  | .descriptorNotFound _ _ => some "not_found"
  | .parameterNotRegistered _ => some "not_registered"
  | .module _ _ => some "module"
  | .load _ _ => some "load"
  | .invalidReport _ => some "schema"
  | .unsupportedPlatform _ => some "unsupported_platform"
  | .notFixable _ => some "not_fixable"
  | .unsupportedModuleFormat _ | .unreadableSettings _ | .unwritableSettings _ =>
    some "unsupported_format"
  | .canceled => some "canceled"
  | .io e => if e.reason == .noSuchFile then some "not_exist" else none
  | .unwatchable reason => if reason == .noSuchFile then some "not_exist" else none
  | _ => none

def kinds : List String :=
  ["duplicate", "invalid_id", "not_found", "not_registered", "module", "load", "schema",
    "unsupported_platform", "not_fixable", "unsupported_format", "canceled", "not_exist"]

def kind (f : Failure) : String :=
  let found := f.chain.filterMap ownKind?
  (kinds.find? found.contains).getD "error"

/-- Tells what was being done when a computation failed. -/
def within {α : Type} (activity : String) : Except Failure α → Except Failure α
  | .ok a => .ok a
  | .error f => .error (.during activity f)

def ofIo {α : Type} : Except IoError α → Except Failure α
  | .ok a => .ok a
  | .error e => .error (.io e)

end Failure

end BytecodeAudit
