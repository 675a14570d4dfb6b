import BytecodeAudit.Bytecode.Module
import BytecodeAudit.Failure
import BytecodeAudit.Pack.Basic

/-!
# The binary form of modules

Modules and symbol tables are written as packed records. Each record has its field names, in the
order in which they are written, and a pair of functions between values and packed values. Repeated
names are settled before a record is read.
-/

namespace BytecodeAudit

def moduleFormat : Int := 1

/-! ### References -/

mutual

def TypeRef.toPack : TypeRef → Pack
  | { ns, name, moduleName, isValueType, declaring, generic } =>
    .record [("ns", Pack.text? ns), ("name", some (.text name)), ("module", Pack.text? moduleName),
      ("value_type", Pack.true? isValueType),
      ("declaring", match declaring with
        | some t => some t.toPack
        | none => none),
      ("generic_param", match generic with
        | some g => some g.toPack
        | none => none)]

def GenericParam.toPack : GenericParam → Pack
  | { name, mustBeClass, mustBeStruct, constraints } =>
    .record [("name", some (.text name)), ("class", Pack.true? mustBeClass),
      ("struct", Pack.true? mustBeStruct), ("constraints", Pack.nonempty? (typeRefsToPack constraints))]

def typeRefsToPack : List TypeRef → List Pack
  | [] => []
  | t :: ts => t.toPack :: typeRefsToPack ts

end

def TypeRef.packFields : List String :=
  ["ns", "name", "module", "value_type", "declaring", "generic_param"]

def GenericParam.packFields : List String := ["name", "class", "struct", "constraints"]

mutual

/-- Reads a type reference over `cur`. The fuel bounds the depth. -/
def TypeRef.ofPack (fuel : Nat) (cur : TypeRef) (p : Pack) : Option TypeRef :=
  match fuel with
  | 0 => none
  | n + 1 =>
    Pack.decodeRecord TypeRef.packFields
      (fun (t : TypeRef) field v =>
        match field with
        | "ns" => v.decodeText.map fun s => { t with ns := s }
        | "name" => v.decodeText.map fun s => { t with name := s }
        | "module" => v.decodeText.map fun s => { t with moduleName := s }
        | "value_type" => v.decodeBool.map fun b => { t with isValueType := b }
        | "declaring" =>
          (Pack.decodeOption { name := "" } (TypeRef.ofPack n) t.declaring v).map
            fun d => { t with declaring := d }
        | "generic_param" =>
          (Pack.decodeOption { name := "" } (GenericParam.ofPack n) t.generic v).map
            fun g => { t with generic := g }
        | _ => some t)
      { name := "" } cur p

def GenericParam.ofPack (fuel : Nat) (cur : GenericParam) (p : Pack) : Option GenericParam :=
  match fuel with
  | 0 => none
  | n + 1 =>
    Pack.decodeRecord GenericParam.packFields
      (fun (g : GenericParam) field v =>
        match field with
        | "name" => v.decodeText.map fun s => { g with name := s }
        | "class" => v.decodeBool.map fun b => { g with mustBeClass := b }
        | "struct" => v.decodeBool.map fun b => { g with mustBeStruct := b }
        | "constraints" =>
          (Pack.decodeList { name := "" } (TypeRef.ofPack n) g.constraints v).map
            fun ts => { g with constraints := ts.getD [] }
        | _ => some g)
      { name := "" } cur p

end

mutual

/-- What a packed type reference is read as. The fuel bounds the depth. -/
def TypeRef.packShape : Nat → Pack.Shape
  | 0 => .leaf
  | n + 1 => .record TypeRef.packFields fun
    | "declaring" => TypeRef.packShape n
    | "generic_param" => GenericParam.packShape n
    | _ => .leaf

def GenericParam.packShape : Nat → Pack.Shape
  | 0 => .leaf
  | n + 1 => .record GenericParam.packFields fun
    | "constraints" => .list (TypeRef.packShape n)
    | _ => .leaf

end

def GenericParam.listOfPack (cur : List GenericParam) (p : Pack) : Option (List GenericParam) :=
  (Pack.decodeList { name := "" } (fun g q => GenericParam.ofPack (q.depth + 1) g q) cur p).map
    (·.getD [])

namespace MethodRef

def toPack (m : MethodRef) : Pack :=
  .record [("declaring", some m.declaring.toPack), ("name", some (.text m.name)),
    ("params", Pack.nonempty? (m.params.map .text)), ("returns", Pack.text? m.returns)]

def packFields : List String := ["declaring", "name", "params", "returns"]

def packShape (depth : Nat) : Pack.Shape :=
  .record packFields fun
    | "declaring" => TypeRef.packShape depth
    | _ => .leaf

def ofPack (cur : MethodRef) (p : Pack) : Option MethodRef :=
  Pack.decodeRecord packFields
    (fun (m : MethodRef) field v =>
      match field with
      | "declaring" =>
        (TypeRef.ofPack (v.depth + 1) m.declaring v).map fun t => { m with declaring := t }
      | "name" => v.decodeText.map fun s => { m with name := s }
      | "params" => (v.decodeTexts m.params).map fun ps => { m with params := ps }
      | "returns" => v.decodeText.map fun s => { m with returns := s }
      | _ => some m)
    ⟨{ name := "" }, "", [], ""⟩ cur p

end MethodRef

namespace Instruction

def toPack (i : Instruction) : Pack :=
  .record [("offset", some (.word i.offset)), ("op", some (.text i.opcode.mnemonic)),
    ("method", i.method.map MethodRef.toPack), ("type", i.typeRef.map TypeRef.toPack),
    ("str", Pack.text? i.text), ("int", if i.int == 0 then none else some (.long i.int))]

def packFields : List String := ["offset", "op", "method", "type", "str", "int"]

def packShape (depth : Nat) : Pack.Shape :=
  .record packFields fun
    | "method" => MethodRef.packShape depth
    | "type" => TypeRef.packShape depth
    | _ => .leaf

def ofPack (cur : Instruction) (p : Pack) : Option Instruction :=
  Pack.decodeRecord packFields
    (fun (i : Instruction) field v =>
      match field with
      | "offset" => v.decodeWord.map fun n => { i with offset := n }
      | "op" => v.decodeText.map fun s => { i with opcode := ⟨s⟩ }
      | "method" =>
        (Pack.decodeOption ⟨{ name := "" }, "", [], ""⟩ MethodRef.ofPack i.method v).map
          fun m => { i with method := m }
      | "type" =>
        (Pack.decodeOption { name := "" } (TypeRef.ofPack (v.depth + 1)) i.typeRef v).map
          fun t => { i with typeRef := t }
      | "str" => v.decodeText.map fun s => { i with text := s }
      | "int" => v.decodeLong.map fun n => { i with int := n }
      | _ => some i)
    {} cur p

end Instruction

namespace MethodDef

def toPack (m : MethodDef) : Pack :=
  .record [("token", some (.word m.token)), ("name", some (.text m.name)),
    ("params", Pack.nonempty? (m.params.map .text)), ("returns", Pack.text? m.returns),
    ("generic_params", Pack.nonempty? (m.genericParams.map GenericParam.toPack)),
    ("body", Pack.nonempty? (m.body.map Instruction.toPack))]

def packFields : List String := ["token", "name", "params", "returns", "generic_params", "body"]

def packShape (depth : Nat) : Pack.Shape :=
  .record packFields fun
    | "generic_params" => .list (GenericParam.packShape depth)
    | "body" => .list (Instruction.packShape depth)
    | _ => .leaf

def ofPack (cur : MethodDef) (p : Pack) : Option MethodDef :=
  Pack.decodeRecord packFields
    (fun (m : MethodDef) field v =>
      match field with
      | "token" => v.decodeWord.map fun n => { m with token := n }
      | "name" => v.decodeText.map fun s => { m with name := s }
      | "params" => (v.decodeTexts m.params).map fun ps => { m with params := ps }
      | "returns" => v.decodeText.map fun s => { m with returns := s }
      | "generic_params" =>
        (GenericParam.listOfPack m.genericParams v).map fun gs => { m with genericParams := gs }
      | "body" =>
        (Pack.decodeList {} Instruction.ofPack m.body v).map fun is => { m with body := is.getD [] }
      | _ => some m)
    {} cur p

end MethodDef

namespace TypeDef

mutual

def toPack : TypeDef → Pack
  | { ns, name, isValueType, genericParams, methods, nested, declaring := _ } =>
    .record [("ns", Pack.text? ns), ("name", some (.text name)),
      ("value_type", Pack.true? isValueType),
      ("generic_params", Pack.nonempty? (genericParams.map GenericParam.toPack)),
      ("methods", Pack.nonempty? (methods.map MethodDef.toPack)),
      ("nested", Pack.nonempty? (listToPack nested))]

def listToPack : List TypeDef → List Pack
  | [] => []
  | t :: ts => t.toPack :: listToPack ts

end

def packFields : List String := ["ns", "name", "value_type", "generic_params", "methods", "nested"]

def packShape : Nat → Pack.Shape
  | 0 => .leaf
  | n + 1 => .record packFields fun
    | "generic_params" => .list (GenericParam.packShape n)
    | "methods" => .list (MethodDef.packShape n)
    | "nested" => .list (packShape n)
    | _ => .leaf

def ofPack (fuel : Nat) (cur : TypeDef) (p : Pack) : Option TypeDef :=
  match fuel with
  | 0 => none
  | n + 1 =>
    Pack.decodeRecord packFields
      (fun (t : TypeDef) field v =>
        match field with
        | "ns" => v.decodeText.map fun s => { t with ns := s }
        | "name" => v.decodeText.map fun s => { t with name := s }
        | "value_type" => v.decodeBool.map fun b => { t with isValueType := b }
        | "generic_params" =>
          (GenericParam.listOfPack t.genericParams v).map fun gs => { t with genericParams := gs }
        | "methods" =>
          (Pack.decodeList {} MethodDef.ofPack t.methods v).map
            fun ms => { t with methods := ms.getD [] }
        | "nested" =>
          (Pack.decodeList {} (ofPack n) t.nested v).map fun ts => { t with nested := ts.getD [] }
        | _ => some t)
      {} cur p

end TypeDef

/-! ### Symbols -/

def SequencePoint.toPack (p : SequencePoint) : Pack :=
  .record [("offset", some (.word p.offset)), ("doc", some (.text p.document)),
    ("line", some (.small p.line)), ("col", if p.column == 0 then none else some (.small p.column)),
    ("hidden", Pack.true? p.hidden)]

def SequencePoint.ofPack (cur : SequencePoint) (p : Pack) : Option SequencePoint :=
  Pack.decodeRecord ["offset", "doc", "line", "col", "hidden"]
    (fun (s : SequencePoint) field v =>
      match field with
      | "offset" => v.decodeWord.map fun n => { s with offset := n }
      | "doc" => v.decodeText.map fun t => { s with document := t }
      | "line" => v.decodeLong.map fun n => { s with line := n }
      | "col" => v.decodeLong.map fun n => { s with column := n }
      | "hidden" => v.decodeBool.map fun b => { s with hidden := b }
      | _ => some s)
    {} cur p

namespace Symbols

def toPack (s : Symbols) : Pack :=
  .record [("module", some (.text s.moduleName)),
    ("methods", some (match s.methods with
      | none => .nil
      | some es => .map (es.map fun (token, ps) =>
          (.word token, match ps with
            | none => .nil
            | some ps => .array (ps.map SequencePoint.toPack)))))]

def packFields : List String := ["module", "methods"]

/-- The way to the map of methods, which is read even behind another header. -/
def methodsPath : Pack.FieldPath := [("methods", 1)]

def packShape : Pack.Shape := .record packFields fun _ => .leaf

def methodsOfPack (cur : Symbols) : Pack → Option Symbols
  | .led .nil | .nil => some { cur with methods := none }
  | .led (.map es) | .map es =>
    es.foldlM (fun (s : Symbols) (k, v) => do
      let token ← k.decodeWord
      let ps ← Pack.decodeList {} SequencePoint.ofPack [] v
      some (s.set token ps)) { cur with methods := some cur.entries }
  | _ => none

def ofPack (cur : Symbols) (p : Pack) : Option Symbols :=
  Pack.decodeRecord packFields
    (fun (s : Symbols) field v =>
      match field with
      | "module" => v.decodeText.map fun t => { s with moduleName := t }
      | "methods" => methodsOfPack s v
      | _ => some s)
    {} cur p

def encode (s : Symbols) : Bytes := s.toPack.write

def decode (bs : Bytes) : Except Failure Symbols :=
  match (Pack.read? bs methodsPath).bind fun (p, _) => ofPack {} p with
  | some s => .ok s
  | none => .error (.malformed "not a symbol table")

end Symbols

namespace Module

def toPack (m : Module) : Pack :=
  .record [("format_version", some (.small m.formatVersion)), ("name", some (.text m.name)),
    ("version", Pack.text? m.version), ("runtime_version", Pack.text? m.runtimeVersion),
    ("debug_build", Pack.true? m.isDebugBuild),
    ("types", some (match m.types with
      | none => .nil
      | some ts => .array (TypeDef.listToPack ts))),
    ("symbols", m.symbols.map Symbols.toPack)]

def packFields : List String :=
  ["format_version", "name", "version", "runtime_version", "debug_build", "types", "symbols"]

def packShape (depth : Nat) : Pack.Shape :=
  .record packFields fun
    | "types" => .list (TypeDef.packShape depth)
    | "symbols" => Symbols.packShape
    | _ => .leaf

def ofPlainPack (p : Pack) : Option Module :=
  Pack.decodeRecord packFields
    (fun (m : Module) field v =>
      match field with
      | "format_version" => v.decodeLong.map fun n => { m with formatVersion := n }
      | "name" => v.decodeText.map fun s => { m with name := s }
      | "version" => v.decodeText.map fun s => { m with version := s }
      | "runtime_version" => v.decodeText.map fun s => { m with runtimeVersion := s }
      | "debug_build" => v.decodeBool.map fun b => { m with isDebugBuild := b }
      | "types" =>
        (Pack.decodeList {} (fun t q => TypeDef.ofPack (q.depth + 1) t q) (m.types.getD []) v).map
          fun ts => { m with types := ts }
      | "symbols" =>
        (Pack.decodeOption {} Symbols.ofPack m.symbols v).map fun s => { m with symbols := s }
      | _ => some m)
    {} {} p

/-- Reads a module. Each value must fit its field, also where a later one is read over it. -/
def ofPack (p : Pack) : Option Module := do
  let m ← ofPlainPack p
  if p.isRepeating then ofPlainPack (Pack.settle (packShape p.depth) [p]) else some m

def writtenFormat (m : Module) : Int := if m.formatVersion == 0 then moduleFormat else m.formatVersion

def encode (m : Module) : Bytes := { m with formatVersion := m.writtenFormat }.toPack.write

/-- Reads a module and links it. Formats from the future are refused. -/
def decode (bs : Bytes) : Except Failure Module :=
  match (Pack.read? bs (("symbols", 6) :: Symbols.methodsPath)).bind fun (p, _) => ofPack p with
  | none => .error (.during "decode module" (.malformed "not a module"))
  | some m =>
    if moduleFormat < m.formatVersion then .error (.unsupportedModuleFormat m.formatVersion)
    else .ok m.link

end Module

/-! ### Module files

The symbols of a file `.bcm` are part of it, or else in a file `.sym` beside it. -/

structure LoadedModule where
  content : Module
  path : String
  size : Nat

def Module.isModulePath (path : String) : Bool := (Path.extension path).map Char.toLower == ".bcm"

def Module.symbolsPath (path : String) : String := Path.withoutExtension path ++ ".sym"

/-- Whether a path names a symbol file. The long `ſ` is a lower-case `s` too. -/
def Module.isSymbolsPath (path : String) : Bool :=
  (Path.extension path).map (fun c => if c == 'ſ' then 's' else c.toLower) == ".sym"

def Symbols.load (d : Disk) (path : String) : Except Failure Symbols :=
  match d.read path with
  | .error e =>
    if e.action == "read" then .error (.during ("decode " ++ path) (.io e)) else .error (.io e)
  | .ok bs =>
    match Symbols.decode bs with
    | .ok s => .ok s.normalize
    | .error f => .error (.during ("decode " ++ path) f)

namespace LoadedModule

def loadAlone (d : Disk) (path : String) : Except Failure LoadedModule :=
  match d.read path with
  | .error e =>
    if e.action == "read" then .error (.during "decode module" (.io e)) else .error (.io e)
  | .ok bs => (Module.decode bs).map fun content => { content, path, size := bs.length }

/-- Gives a module without symbols those of the file beside it, if there is one. -/
def attachSymbols (d : Disk) (m : LoadedModule) : Except Failure LoadedModule :=
  match m.content.symbols with
  | some _ => .ok m
  | none =>
    match Symbols.load d (Module.symbolsPath m.path) with
    | .ok s => .ok { m with content := { m.content with symbols := some s } }
    | .error f => if f.isMissingFile then .ok m else .error (.during "symbols" f)

def load (d : Disk) (path : String) : Except Failure LoadedModule :=
  match (loadAlone d path).bind (attachSymbols d) with
  | .ok m =>
    .ok { m with content := { m.content with symbols := m.content.symbols.map Symbols.normalize } }
  | .error f => .error (.load path f)

end LoadedModule

/-- Writes a file in place of the one that is there, after the directories above it. -/
def Disk.replaceFile (d : Disk) (path : String) (content : Bytes) : Except Failure Disk := do
  let d ← Failure.ofIo (d.makeDirectories (Path.directory path))
  Failure.ofIo (d.write path content)

def Module.save (m : Module) (path : String) (d : Disk) : Except Failure Disk :=
  d.replaceFile path m.encode

def Symbols.save (s : Symbols) (path : String) (d : Disk) : Except Failure Disk :=
  d.replaceFile path s.encode

end BytecodeAudit
