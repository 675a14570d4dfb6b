import BytecodeAudit.Descriptor.Basic
import BytecodeAudit.Setting.Basic
import BytecodeAudit.Yaml.Node.Reader

/-!
# Descriptor databases

A descriptor database is a YAML document with a version and a list of descriptors. Loading checks
every descriptor.
-/

namespace BytecodeAudit

/-! ### Reading records from YAML

Null leaves what is there. Other scalars fill a text as they are written, binary data with their
bytes; the fraction of a whole number is dropped. -/

namespace Yaml.Node

/-- The entries of a mapping by the text of their keys, which must be known; those with a null key
are dropped, and null has none. -/
def recordEntries (known : List String) : Node → Except Fault (List (String × Node))
  | .mapping _ _ entries => do
    let named ← entries.mapM fun (k, v) => do
      match k with
      | .scalar trim _ text =>
        match ← scalarText? trim text with
        | none => .ok none
        | some name => if known.contains name then .ok (some (name, v)) else .error (.unknownKey name)
      | _ => .error .misfit
    .ok (named.filterMap id)
  | .scalar trim _ text => do
    if (← scalarValue trim text) == .null then .ok [] else .error .misfit
  | _ => .error .misfit

def decodeText? : Node → Except Fault (Option String)
  | .scalar trim _ text => scalarText? trim text
  | _ => .error .misfit

def decodeItems : Node → Except Fault (List Node)
  | .sequence _ _ items => .ok items
  | .scalar trim _ text => do
    if (← scalarValue trim text) == .null then .ok [] else .error .misfit
  | _ => .error .misfit

def decodeTexts (n : Node) : Except Fault (List String) := do
  let texts ← (← n.decodeItems).mapM decodeText?
  .ok (texts.filterMap id)

def decodeInt? : Node → Except Fault (Option Int)
  | .scalar trim _ text => do
    match ← scalarValue trim text with
    | .null => .ok none
    | .int n => if n < Word.span 63 then .ok (some n) else .error .misfit
    | .float .notANumber => .error .misfit
    | .float x =>
      let tooLarge := match x with
        | .infinite negative => !negative
        | x => match x.truncate? with
          | some n => Word.span 63 < n
          | none => false
      if tooLarge then .error .misfit else .ok (some (Setting.truncate x))
    | _ => .error .misfit
  | _ => .error .misfit

def isNull : Node → Bool
  | .scalar trim _ text => ScalarValue.ofTagged? trim.tag text == some .null
  | _ => false

end Yaml.Node

/-! ### Databases -/

/-- A descriptor database as it is written. Entries of the list may be null. -/
structure DescriptorDatabase where
  version : Int := 0
  descriptors : List (Option Descriptor) := []
deriving DecidableEq, Repr

namespace Descriptor

def databaseKeys : List String :=
  ["id", "title", "message", "severity", "areas", "platforms", "min_version", "max_version",
    "description", "recommendation", "documentation_url", "type", "method", "opcode"]

def setEntry (d : Descriptor) (key : String) (n : Yaml.Node) : Except Yaml.Fault Descriptor := do
  let text (cur : String) : Except Yaml.Fault String := do .ok ((← n.decodeText?).getD cur)
  match key with
  | "id" => .ok { d with id := ← text d.id }
  | "title" => .ok { d with title := ← text d.title }
  | "message" => .ok { d with messageFormat := ← text d.messageFormat }
  | "severity" => .ok { d with defaultSeverity := ⟨← text d.defaultSeverity.label⟩ }
  | "areas" => .ok { d with areas := (← n.decodeTexts).map .mk }
  | "platforms" => .ok { d with platforms := (← n.decodeTexts).map .mk }
  | "min_version" => .ok { d with minVersion := ← text d.minVersion }
  | "max_version" => .ok { d with maxVersion := ← text d.maxVersion }
  | "description" => .ok { d with description := ← text d.description }
  | "recommendation" => .ok { d with recommendation := ← text d.recommendation }
  | "documentation_url" => .ok { d with documentationUrl := ← text d.documentationUrl }
  | "type" => .ok { d with typeName := ← text d.typeName }
  | "method" => .ok { d with method := ← text d.method }
  | "opcode" => .ok { d with opcode := ← text d.opcode }
  | _ => .ok d

def ofNode? (n : Yaml.Node) : Except Yaml.Fault (Option Descriptor) := do
  if n.isNull then .ok none
  else
    let d ← (← n.recordEntries databaseKeys).foldlM (fun d (k, v) => d.setEntry k v)
      ({ id := "", title := "" } : Descriptor)
    .ok (some d)

end Descriptor

namespace DescriptorDatabase

def supportedVersion : Int := 1

def setEntry (db : DescriptorDatabase) (key : String) (n : Yaml.Node) :
    Except Yaml.Fault DescriptorDatabase := do
  match key with
  | "version" => .ok { db with version := (← n.decodeInt?).getD db.version }
  | "descriptors" => .ok { db with descriptors := ← (← n.decodeItems).mapM Descriptor.ofNode? }
  | _ => .ok db

def parse (bytes : Bytes) : Except Failure DescriptorDatabase :=
  let read : Except Yaml.Fault (Option DescriptorDatabase) := do
    match (← Yaml.Document.ofBytes bytes).bind (·.root) with
    | none => .ok none
    | some n => do
      let entries ← (← n.expand).recordEntries ["version", "descriptors"]
      let db ← entries.foldlM (fun db (k, v) => db.setEntry k v) {}
      .ok (some db)
  match read with
  | .ok (some db) => .ok db
  | .ok none => .error (.during "parse descriptor database" (.malformed "EOF"))
  | .error fault => .error (.during "parse descriptor database" (.malformed fault.message))

/-- The descriptors of a database, in its order. The first entry that is null or not valid is a
failure. -/
def check : List (Option Descriptor) → Except Failure (List Descriptor)
  | [] => .ok []
  | none :: _ => .error .nullEntry
  | some d :: ds => do
    d.validate
    .ok (d :: (← check ds))

def load (bytes : Bytes) : Except Failure (List Descriptor) := do
  let db ← parse bytes
  if db.version != supportedVersion then
    .error (.plain ("unsupported descriptor database version " ++ toString db.version))
  else check db.descriptors

def loadFile (d : Disk) (path : String) : Except Failure (List Descriptor) := do
  match d.find path with
  | .error reason => .error (.io ⟨"open", path, reason⟩)
  | .ok (_, .directory) =>
    .error (.during path (.during "parse descriptor database" (.io ⟨"read", path, .isDirectory⟩)))
  | .ok (_, .file bytes) =>
    match load bytes with
    | .error .nullEntry => .error .nullEntry
    | r => Failure.within path r

end DescriptorDatabase

end BytecodeAudit
