import BytecodeAudit.Issue
import BytecodeAudit.Text.Template

/-!
# Descriptors

A descriptor describes one kind of issue: its name and wording, its importance, the platforms and
runtime versions it applies to, and the calls or conversions it matches. A catalog has the
descriptors of a session in ascending order of ids, each with the fixer that an analyzer attached to
it.
-/

namespace BytecodeAudit

/-! ### Versions

A component counts by its leading decimal digits. Missing components count as zero, so `1` and `1.0`
are the same version. -/

namespace Version

/-- Components are limited to the greatest 64-bit integer. -/
def maxComponent : Nat := Word.span 63 - 1

def component (cs : List Char) : Nat :=
  min maxComponent
    ((cs.takeWhile Char.isDigit).foldl (fun n c => n * 10 + (c.toNat - '0'.toNat)) 0)

def components (s : String) : List Nat :=
  (s.toList.splitOn '.').map component

def compareComponents : List Nat → List Nat → Ordering
  | [], [] => .eq
  | x :: xs, [] => (compare x 0).then (compareComponents xs [])
  | [], y :: ys => (compare 0 y).then (compareComponents [] ys)
  | x :: xs, y :: ys => (compare x y).then (compareComponents xs ys)

def compare (a b : String) : Ordering :=
  compareComponents (components a) (components b)

end Version

/-! ### Descriptors -/

structure Area where
  name : String
deriving DecidableEq, Repr, Inhabited

instance : ToJson Platform := ⟨fun p => .string p.name⟩
instance : ToJson Severity := ⟨fun s => .string s.label⟩

structure Descriptor where
  id : String
  title : String
  /-- A template for the description of an issue; the title is used when it is empty. -/
  messageFormat : String := ""
  defaultSeverity : Severity := Severity.default
  areas : List Area := []
  platforms : List Platform := []
  minVersion : String := ""
  maxVersion : String := ""
  description : String := ""
  recommendation : String := ""
  documentationUrl : String := ""
  /-- A full type name, or a namespace when the method is the wildcard. -/
  typeName : String := ""
  method : String := ""
  opcode : String := ""
deriving DecidableEq, Repr

namespace Descriptor

/-- The method criterion that matches every member of a namespace. -/
def wildcard : String := "*"

def isWildcard (d : Descriptor) : Bool := d.method == wildcard

def isOpcodeOnly (d : Descriptor) : Bool := d.opcode != "" && d.typeName == "" && d.method == ""

/-- Whether two descriptors share an id. -/
def isSame (d e : Option Descriptor) : Bool := d.map (·.id) == e.map (·.id)

def hasArea (d : Descriptor) (a : Area) : Bool := d.areas.contains a

/-- The description of an issue with these arguments, or else the title, and whether the template
fits them. -/
def message (d : Descriptor) (args : List Text.Template.Arg) : String × Bool :=
  if d.messageFormat == "" then (d.title, true)
  else if Text.Template.passesTrial d.messageFormat args then
    (Text.Template.render d.messageFormat args, true)
  else (d.title, false)

def isValidId (id : String) : Bool :=
  match id.toList with
  | [a, b, c, d, e, f, g] =>
    [a, b, c].all (fun c => 'A' ≤ c && c ≤ 'Z') && [d, e, f, g].all Char.isDigit
  | _ => false

def validate (d : Descriptor) : Except Failure Unit :=
  if !isValidId d.id then .error (.invalidDescriptorId d.id)
  else if d.title == "" then
    .error (.during ("descriptor " ++ d.id) (.plain "title is required"))
  else
    match Severity.parse d.defaultSeverity.label with
    | .error e => .error (.during ("descriptor " ++ d.id) (.unknownSeverity e.given))
    | .ok _ =>
      if d.method == "" && d.typeName != "" then
        .error (.during ("descriptor " ++ d.id)
          (.plain ("type criterion " ++ Text.quoted d.typeName ++ " needs a method")))
      else .ok ()

/-- Whether the descriptor applies to a platform and runtime version; the default and the empty one
stand for all of them. -/
def isApplicable (d : Descriptor) (platform : Platform) (version : String) : Bool :=
  (platform == Platform.default || d.platforms.isEmpty || d.platforms.contains platform) &&
    (version == "" ||
      ((d.minVersion == "" || Version.compare version d.minVersion != .lt) &&
        (d.maxVersion == "" || Version.compare version d.maxVersion != .gt)))

def toJson (d : Descriptor) : Json :=
  .compactFields [("id", some (.string d.id)), ("title", some (.string d.title)),
    ("message_format", Json.text? d.messageFormat),
    ("default_severity", some (.string d.defaultSeverity.label)),
    ("areas", Json.nonempty? (d.areas.map fun a => .string a.name)),
    ("platforms", Json.nonempty? (d.platforms.map fun p => .string p.name)),
    ("min_version", Json.text? d.minVersion), ("max_version", Json.text? d.maxVersion),
    ("description", Json.text? d.description), ("recommendation", Json.text? d.recommendation),
    ("documentation_url", Json.text? d.documentationUrl), ("type", Json.text? d.typeName),
    ("method", Json.text? d.method), ("opcode", Json.text? d.opcode)]

instance : ToJson Descriptor := ⟨toJson⟩

def fieldNames : List String :=
  ["id", "title", "message_format", "default_severity", "areas", "platforms", "min_version",
    "max_version", "description", "recommendation", "documentation_url", "type", "method",
    "opcode"]

def shape : Json.Shape :=
  .record true fieldNames fun
    | "areas" | "platforms" => .list .leaf
    | _ => .leaf

def setField (d : Descriptor) (name : String) (v : Json) : Option Descriptor :=
  let text (cur : String) (set : String → Descriptor) : Option Descriptor :=
    (Json.decodeText cur v).map set
  match name with
  | "id" => text d.id fun s => { d with id := s }
  | "title" => text d.title fun s => { d with title := s }
  | "message_format" => text d.messageFormat fun s => { d with messageFormat := s }
  | "default_severity" => text d.defaultSeverity.label fun s => { d with defaultSeverity := ⟨s⟩ }
  | "areas" =>
    (Json.decodeList (Json.decodeText "") v).map fun xs => { d with areas := xs.map .mk }
  | "platforms" =>
    (Json.decodeList (Json.decodeText "") v).map fun xs => { d with platforms := xs.map .mk }
  | "min_version" => text d.minVersion fun s => { d with minVersion := s }
  | "max_version" => text d.maxVersion fun s => { d with maxVersion := s }
  | "description" => text d.description fun s => { d with description := s }
  | "recommendation" => text d.recommendation fun s => { d with recommendation := s }
  | "documentation_url" => text d.documentationUrl fun s => { d with documentationUrl := s }
  | "type" => text d.typeName fun s => { d with typeName := s }
  | "method" => text d.method fun s => { d with method := s }
  | "opcode" => text d.opcode fun s => { d with opcode := s }
  | _ => some d

def decode (j : Json) : Option Descriptor :=
  Json.decodeFields fieldNames setField { id := "", title := "" } j

end Descriptor

/-! ### Similarity of names

By common characters and the common start, between zero and one in single precision. -/

namespace Text

/-- Pairs the characters of one text with equal ones of the other within `reach`. The result are the
paired characters of the first text and the marks of those that are taken in the second. -/
def pairUp (reach : Int) (other : List Char) :
    Nat → List Char → List Bool → List Char × List Bool
  | _, [], taken => ([], taken)
  | i, c :: cs, taken =>
    let free := ((other.zip taken).zipIdx).find? fun ((d, t), j) =>
      i - reach ≤ (j : Int) && (j : Int) ≤ i + reach && c == d && !t
    match free with
    | some (_, j) =>
      let (matched, marks) := pairUp reach other (i + 1) cs (taken.set j true)
      (c :: matched, marks)
    | none => pairUp reach other (i + 1) cs taken

def commonSimilarity (a b : List Char) : Float32 :=
  if a.isEmpty || b.isEmpty then 0
  else if a == b then 1
  else
    let reach : Int := max a.length b.length / 2 - 1
    let (matched, taken) := pairUp reach b 0 a (b.map fun _ => false)
    let count := matched.length
    if count == 0 then 0
    else
      let counterparts := (b.zip taken).filterMap fun (c, t) => if t then some c else none
      let moved := ((matched.zip counterparts).filter fun (c, d) => c != d).length
      let m := Float32.ofNat count
      let t := Float32.ofNat moved / 2
      (m / Float32.ofNat a.length + m / Float32.ofNat b.length + (m - t) / m) / 3

def commonStart : List Char → List Char → Nat
  | a :: as, b :: bs => if a == b then commonStart as bs + 1 else 0
  | _, _ => 0

/-- The similarity of two texts: by common characters, raised for up to four characters of common
start. -/
def similarity (a b : String) : Float32 :=
  let base := commonSimilarity a.toList b.toList
  if base == 0 || base == 1 then base
  else
    let start := min (commonStart a.toList b.toList) 4
    base + 0.1 * Float32.ofNat start * (1 - base)

end Text

/-! ### Catalogs -/

abbrev Fixer := Issue → Disk → Except Failure Disk

structure CatalogEntry where
  descriptor : Descriptor
  fixer : Option Fixer := none

structure Catalog where
  entries : List CatalogEntry := []

namespace Catalog

def empty : Catalog := {}

def list (c : Catalog) : List Descriptor := c.entries.map (·.descriptor)

def size (c : Catalog) : Nat := c.entries.length

def entry? (c : Catalog) (id : String) : Option CatalogEntry :=
  c.entries.find? (·.descriptor.id == id)

def get? (c : Catalog) (id : String) : Option Descriptor := (c.entry? id).map (·.descriptor)

def canFix (c : Catalog) (id : String) : Bool :=
  match c.entry? id with
  | some e => e.fixer.isSome
  | none => false

def insertEntry (e : CatalogEntry) : List CatalogEntry → List CatalogEntry
  | [] => [e]
  | x :: xs => if e.descriptor.id < x.descriptor.id then e :: x :: xs else x :: insertEntry e xs

/-- Adds a descriptor. Invalid descriptors and repeated ids are refused. -/
def register (c : Catalog) (d : Descriptor) : Except Failure Catalog := do
  d.validate
  if (c.get? d.id).isSome then .error (.duplicateDescriptor d.id)
  else .ok { entries := insertEntry { descriptor := d } c.entries }

/-- Adds descriptors up to the first that is refused. The catalog holds those before it. -/
def registerAll (c : Catalog) : List Descriptor → Catalog × Except Failure Unit
  | [] => (c, .ok ())
  | d :: ds =>
    match c.register d with
    | .ok c => c.registerAll ds
    | .error f => (c, .error f)

def suggestThreshold : Float32 := 0.8

def maxSuggestions : Nat := 3

/-- Registered ids that look like an id, the most similar first. -/
def suggest (c : Catalog) (id : String) : List String :=
  let needle := Text.upper id
  let scored := c.list.map fun d => (d.id, Text.similarity needle d.id)
  let close := scored.filter fun (_, score) => !(score < suggestThreshold)
  ((close.mergeSort fun (_, a) (_, b) => !(a < b)).map (·.1)).take maxSuggestions

def lookup (c : Catalog) (id : String) : Except Failure Descriptor :=
  match c.get? id with
  | some d => .ok d
  | none => .error (.descriptorNotFound id (c.suggest id))

/-- Callers of this rely on the id. -/
def mustGet (c : Catalog) (id : String) : Except Failure Descriptor :=
  match c.get? id with
  | some d => .ok d
  | none => .error (.plain ("descriptor " ++ id ++ " is not registered"))

def findByCriteria (c : Catalog) (typeName method opcode : String) : List Descriptor :=
  c.list.filter fun d => d.typeName == typeName && d.method == method && d.opcode == opcode

/-- Attaches a fixer to a registered descriptor, or takes the one it has away. -/
def attachFixer (c : Catalog) (id : String) (fixer : Option Fixer) : Except Failure Catalog := do
  let _ ← c.lookup id
  .ok { entries := c.entries.map fun e => if e.descriptor.id == id then { e with fixer } else e }

end Catalog

/-! ### Built-in descriptors -/

namespace Builtin

def codeDescriptors : List Descriptor :=
  [{ id := "API0001"
     title := "System.Reflection usage"
     defaultSeverity := Severity.moderate
     areas := [⟨"cpu"⟩]
     typeName := "System.Reflection"
     method := "*"
     description :=
       "Reflection is slow and defeats code stripping. Calls into the System.Reflection " ++
       "namespace are reported with the API name."
     recommendation :=
       "Avoid reflection in frequently executed code. Resolve members once at startup and " ++
       "cache delegates." },
   { id := "API0002"
     title := "String concatenation"
     messageFormat := "'%[1]s' usage in '%[2]s'"
     defaultSeverity := Severity.moderate
     areas := [⟨"memory"⟩]
     typeName := "System.String"
     method := "Concat"
     description := "Concatenating strings allocates a new string on every call."
     recommendation := "Use a StringBuilder, or cache strings that do not change between frames." },
   { id := "API0003"
     title := "Explicit garbage collection"
     messageFormat := "'%[1]s' usage in '%[2]s'"
     defaultSeverity := Severity.major
     areas := [⟨"cpu"⟩]
     typeName := "System.GC"
     method := "Collect"
     description :=
       "Forcing a collection blocks the main thread for the full duration of a mark and " ++
       "sweep."
     recommendation := "Remove explicit calls. Reduce allocations instead." },
   { id := "API0004"
     title := "System.Environment.StackTrace"
     messageFormat := "'%[1]s' usage in '%[2]s'"
     defaultSeverity := Severity.moderate
     areas := [⟨"cpu"⟩, ⟨"memory"⟩]
     typeName := "System.Environment"
     method := "StackTrace"
     description := "Capturing a stack trace walks the stack and allocates strings."
     recommendation := "Only capture stack traces in development builds." },
   { id := "API0005"
     title := "System.DateTime.Now"
     messageFormat := "'%[1]s' usage in '%[2]s'"
     defaultSeverity := Severity.minor
     areas := [⟨"cpu"⟩]
     typeName := "System.DateTime"
     method := "Now"
     description := "DateTime.Now converts from UTC to local time on every access."
     recommendation := "Use DateTime.UtcNow, or a frame time provided by the engine." },
   { id := "API0006"
     title := "Regular expression construction"
     messageFormat := "'%[1]s' constructed in '%[2]s'"
     defaultSeverity := Severity.moderate
     areas := [⟨"cpu"⟩, ⟨"memory"⟩]
     typeName := "System.Text.RegularExpressions.Regex"
     method := ".ctor"
     description := "Constructing a Regex parses and compiles the pattern."
     recommendation := "Construct expressions once and reuse them." },
   { id := "API0007"
     title := "LINQ usage"
     defaultSeverity := Severity.minor
     areas := [⟨"memory"⟩]
     typeName := "System.Linq"
     method := "*"
     description := "LINQ operators allocate enumerators and closures."
     recommendation := "Replace LINQ in hot paths with explicit loops." },
   { id := "API0008"
     title := "Synchronous file read on mobile"
     messageFormat := "'%[1]s' usage in '%[2]s'"
     defaultSeverity := Severity.major
     areas := [⟨"load-time"⟩]
     platforms := [⟨"android"⟩, ⟨"ios"⟩, ⟨"webgl"⟩]
     typeName := "System.IO.File"
     method := "ReadAllBytes"
     description :=
       "Synchronous reads block the main thread; on mobile storage this can take hundreds of " ++
       "milliseconds."
     recommendation := "Load files asynchronously." },
   { id := "API0009"
     title := "Object.FindObjectsOfType"
     messageFormat := "'%[1]s' usage in '%[2]s'"
     defaultSeverity := Severity.major
     areas := [⟨"cpu"⟩]
     maxVersion := "2022.3"
     typeName := "Engine.Object"
     method := "FindObjectsOfType"
     description := "Searching every loaded object is linear in scene size."
     recommendation :=
       "Keep references, or use FindObjectsByType without sorting on 2023.1 and later." },
   { id := "MEM0001"
     title := "Boxing allocation"
     messageFormat := "conversion from value type '%[1]s' to ref type in '%[2]s'"
     defaultSeverity := Severity.minor
     areas := [⟨"memory"⟩]
     opcode := "box"
     description := "Boxing a value type allocates an object on the managed heap."
     recommendation :=
       "Avoid passing value types as object or interfaces in hot paths; use generic " ++
       "overloads." },
   { id := "MEM0002"
     title := "Unboxing conversion"
     messageFormat := "conversion from ref type to value type '%[1]s' in '%[2]s'"
     defaultSeverity := Severity.info
     areas := [⟨"cpu"⟩]
     opcode := "unbox.any"
     description := "Unboxing type-checks the object and copies the value out."
     recommendation := "Usually paired with a boxing allocation; fix the boxing site first." }]

def assemblyDescriptors : List Descriptor :=
  [{ id := "ASM0001"
     title := "Debug build"
     messageFormat := "'%[1]s' was compiled in debug mode"
     defaultSeverity := Severity.major
     areas := [⟨"cpu"⟩]
     description :=
       "Debug builds disable compiler optimizations and keep extra checks in every method."
     recommendation := "Compile the module in release mode for player builds." },
   { id := "ASM0002"
     title := "Missing debug symbols"
     messageFormat := "'%[1]s' has no debug symbols"
     defaultSeverity := Severity.info
     areas := [⟨"support"⟩]
     description :=
       "Without symbols no call site in the module can be mapped to a source line, so code " ++
       "issues are not reported for it."
     recommendation :=
       "Emit symbols (embedded or a sidecar .sym file) for modules you want analyzed." },
   { id := "ASM0003"
     title := "Large module"
     messageFormat := "'%[1]s' is %[2]d KB, above the %[3]d KB limit"
     defaultSeverity := Severity.minor
     areas := [⟨"build-size"⟩, ⟨"load-time"⟩]
     description := "Large modules take longer to load and grow the build."
     recommendation := "Split the module, or strip unused code." }]

def settingsDescriptors : List Descriptor :=
  [{ id := "SET0001"
     title := "Fixed timestep too small"
     messageFormat := "Fixed timestep is %[1]d ms, below the %[2]d ms minimum"
     defaultSeverity := Severity.moderate
     areas := [⟨"cpu"⟩]
     description :=
       "A small fixed timestep runs physics more than once per frame on slow devices."
     recommendation := "Raise time.fixed_timestep_ms, or move work out of fixed updates." },
   { id := "SET0002"
     title := "Engine code stripping disabled"
     messageFormat := "Engine code stripping is disabled"
     defaultSeverity := Severity.minor
     areas := [⟨"build-size"⟩]
     description :=
       "Without stripping, engine modules the project never uses ship with the build."
     recommendation := "Set build.strip_engine_code to true." },
   { id := "SET0003"
     title := "Incremental garbage collection disabled"
     messageFormat := "Incremental garbage collection is disabled"
     defaultSeverity := Severity.moderate
     areas := [⟨"cpu"⟩]
     description :=
       "A non-incremental collector stops the world for a full collection, causing frame " ++
       "spikes."
     recommendation := "Set gc.incremental to true." },
   { id := "SET0004"
     title := "Texture quality too high"
     messageFormat := "Maximum texture quality level is %[1]d, above %[2]d"
     defaultSeverity := Severity.moderate
     areas := [⟨"memory"⟩, ⟨"gpu"⟩]
     platforms := [⟨"android"⟩, ⟨"ios"⟩]
     description := "Full resolution textures exhaust memory on mobile devices."
     recommendation := "Lower quality.max_texture_quality_level for mobile targets." }]

def descriptors : List Descriptor := codeDescriptors ++ assemblyDescriptors ++ settingsDescriptors

end Builtin

end BytecodeAudit
