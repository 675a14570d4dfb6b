import BytecodeAudit.Failure
import BytecodeAudit.Toml
import BytecodeAudit.Yaml.Node.Reader

/-!
# Settings documents

A settings document in one of three formats. The extension of its file tells the format.
-/

namespace BytecodeAudit

/-! ### YAML

The keys of the outermost mapping are texts as they are written; inside, a key is the text that its
value is displayed with. -/

namespace Yaml

def ScalarValue.toSetting : ScalarValue → Setting
  | .null => .null
  | .bool b => .bool b
  | .int n => .int n
  | .float x => .float x
  | .time t => .time t
  | .text s => .text s

namespace Node

def keyValue : Node → Except Fault Setting
  | .scalar trim _ text => (scalarValue trim text).map ScalarValue.toSetting
  | _ => .error .misfit

/-- The table of entries whose keys are all texts, or else the dictionary. Of equal keys the last
counts. -/
def tableOf (isText : Bool) (entries : List (Setting × Setting)) : Setting :=
  if isText then
    .table (entries.foldl (fun fs (k, v) =>
      match k with
      | .text name => Setting.insertField name v fs
      | _ => fs) [])
  else .dictionary entries

mutual

def toSetting : Node → Except Fault Setting
  | .scalar trim _ text => (scalarValue trim text).map ScalarValue.toSetting
  | .sequence _ _ items => do .ok (.list (← itemSettings items))
  | .mapping _ _ entries => do
    .ok (tableOf (entries.all fun (k, _) => k.isTextKey) (← entrySettings entries))
  | .alias _ _ _ | .knot _ _ => .error .misfit

def itemSettings : List Node → Except Fault (List Setting)
  | [] => .ok []
  | n :: ns => do
    let v ← n.toSetting
    .ok (v :: (← itemSettings ns))

def entrySettings : List (Node × Node) → Except Fault (List (Setting × Setting))
  | [] => .ok []
  | (k, v) :: rest => do
    let key ← k.keyValue
    let value ← v.toSetting
    .ok ((key, value) :: (← entrySettings rest))

end

/-- The field of an entry of the outermost mapping. An entry with a null key is none. -/
def outerField? (k v : Node) : Except Fault (Option (String × Setting)) :=
  match k with
  | .scalar trim _ text => do
    match ← scalarText? trim text with
    | none => .ok none
    | some name => do .ok (some (name, ← v.toSetting))
  | _ => .error .misfit

/-- The fields of an expanded outermost node. Null has none. -/
def outerFields : Node → Except Fault (List (String × Setting))
  | .mapping _ _ entries => do
    let fields ← entries.mapM fun (k, v) => outerField? k v
    .ok ((fields.filterMap id).foldl (fun fs (n, v) => Setting.insertField n v fs) [])
  | .scalar trim _ text => do
    if (← scalarValue trim text) == .null then .ok [] else .error .misfit
  | _ => .error .misfit

end Node

def settingOfBytes (bs : List UInt8) : Except Fault Setting := do
  match (← Document.ofBytes bs).bind (·.root) with
  | none => .ok (.table [])
  | some n => do .ok (Setting.named (.table (← (← n.expand).outerFields)))

end Yaml

/-! ### Formats -/

inductive SettingFormat where
  | toml
  | yaml
  | json
deriving DecidableEq, Repr, Inhabited

def SettingFormat.ofPath? (path : String) : Option SettingFormat :=
  match Text.lower (Path.extension path) with
  | ".toml" => some .toml
  | ".yaml" | ".yml" => some .yaml
  | ".json" => some .json
  | _ => none

namespace Setting

mutual

/-- The setting of a JSON value. Numbers are double-precision ones and must not be too large; the
last of several fields counts. -/
def ofJson? : Json → Option Setting
  | .null => some .null
  | .bool b => some (.bool b)
  | .number s =>
    match Binary64.ofText? s with
    | some (.finite n m e) => some (.float (.finite n m e))
    | _ => none
  | .string s => some (.text s)
  | .array xs => (ofJsonItems? xs).map .list
  | .object fs => (ofJsonFields? [] fs).map .table

def ofJsonItems? : List Json → Option (List Setting)
  | [] => some []
  | x :: xs => do
    let v ← ofJson? x
    some (v :: (← ofJsonItems? xs))

def ofJsonFields? (acc : List (String × Setting)) : List (String × Json) → Option (List (String × Setting))
  | [] => some acc
  | (k, x) :: fs => do
    let v ← ofJson? x
    ofJsonFields? (insertField k v acc) fs

end

def ofJsonText? (text : String) : Option Setting := do
  match ← Json.parse? text with
  | .object fs => ofJson? (.object fs)
  | .null => some (.table [])
  | _ => none

def ofText (format : SettingFormat) (bytes : Bytes) : Except Failure Setting :=
  match format with
  | .yaml =>
    match Yaml.settingOfBytes bytes with
    | .ok v => .ok v
    | .error fault => .error (.malformed fault.message)
  | .toml => (Toml.ofBytes? bytes).elim (.error (.malformed "not a TOML document")) .ok
  | .json => (ofJsonText? (Text.ofBytes bytes)).elim (.error (.malformed "not a JSON object")) .ok

def load (d : Disk) (path : String) : Except Failure Setting :=
  match SettingFormat.ofPath? path with
  | none => .error (.unreadableSettings path)
  | some format => Failure.within ("reading settings " ++ path) do
    ofText format (← Failure.ofIo (d.read path))

end Setting

end BytecodeAudit
