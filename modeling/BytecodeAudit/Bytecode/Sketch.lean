import BytecodeAudit.Bytecode.Codec
import BytecodeAudit.Json.Basic

/-!
# Sketches of modules

A sketch tells how to assemble a module: types and methods are declared, and each method lists the
steps that emit its body. Building assigns tokens and offsets, and records a sequence point for
every instruction with a source position. Tokens count up in the order in which the methods were
declared, whatever types they belong to.
-/

namespace BytecodeAudit

/-- The target of a call: a method by name, or a declared one by the numbers of its type and of the
method in it. -/
inductive CallTarget where
  | named (method : MethodRef)
  | declared (type method : Nat)
deriving Repr

/-- The operand of a conversion: a type by name, or a declared one by number. -/
inductive TypeTarget where
  | named (type : TypeRef)
  | declared (type : Nat)
deriving Repr, Inhabited

inductive BodyStep where
  | line (document : String) (line : Int)
  | hidden
  | op (opcode : Opcode)
  | call (opcode : Opcode) (target : CallTarget)
  | convert (opcode : Opcode) (target : TypeTarget)
  | loadString (s : String)
  | loadInt (n : Int)
deriving Repr

structure MethodSketch where
  /-- The number of methods of the module that were declared before. -/
  order : Nat := 0
  name : String
  params : List String := []
  returns : String := ""
  genericParams : List GenericParam := []
  steps : List BodyStep := []
deriving Repr, Inhabited

/-- A declared type. The namespace counts for outermost types only. -/
structure TypeSketch where
  ns : String := ""
  name : String
  isValueType : Bool := false
  genericParams : List GenericParam := []
  methods : List MethodSketch := []
  nested : List TypeSketch := []
deriving Repr, Inhabited

structure ModuleSketch where
  name : String
  version : String := "1.0.0"
  runtimeVersion : String := ""
  isDebugBuild : Bool := false
  types : List TypeSketch := []
deriving Repr, Inhabited

/-! ### Bodies -/

structure BodyState where
  offset : UInt32 := 0
  pending : Option SequencePoint := none
  points : List SequencePoint := []
  emitted : List Instruction := []

def BodyState.emit (s : BodyState) (i : Instruction) : BodyState :=
  { offset := s.offset + i.opcode.size
    pending := none
    points := match s.pending with
      | some p => { p with offset := s.offset } :: s.points
      | none => s.points
    emitted := { i with offset := s.offset } :: s.emitted }

def BodyState.body (s : BodyState) : List Instruction :=
  match s.emitted with
  | [] => [{ offset := s.offset, opcode := Opcode.ret }]
  | i :: _ =>
    if i.opcode == Opcode.ret then s.emitted.reverse
    else s.emitted.reverse ++ [{ offset := s.offset, opcode := Opcode.ret }]

structure Declarations where
  types : List (TypeRef × List MethodRef) := []

namespace Declarations

def type (d : Declarations) (n : Nat) : TypeRef :=
  match d.types[n]? with
  | some (t, _) => t
  | none => default

def method (d : Declarations) (t m : Nat) : MethodRef :=
  match d.types[t]? with
  | some (_, ms) => ms[m]?.getD default
  | none => default

def callTarget (d : Declarations) : CallTarget → MethodRef
  | .named m => m
  | .declared t m => d.method t m

def typeTarget (d : Declarations) : TypeTarget → TypeRef
  | .named t => t
  | .declared t => d.type t

end Declarations

def BodyState.step (d : Declarations) (s : BodyState) : BodyStep → BodyState
  | .line document line => { s with pending := some { document, line } }
  | .hidden => { s with pending := some { hidden := true } }
  | .op opcode => s.emit { opcode }
  | .call opcode target => s.emit { opcode, method := some (d.callTarget target) }
  | .convert opcode target => s.emit { opcode, typeRef := some (d.typeTarget target) }
  | .loadString text => s.emit { opcode := Opcode.loadString, text }
  | .loadInt int => s.emit { opcode := Opcode.loadInt, int }

def MethodSketch.run (d : Declarations) (m : MethodSketch) : BodyState :=
  m.steps.foldl (BodyState.step d) {}

/-! ### Building -/

def firstToken : UInt32 := 0x06000001

def MethodSketch.token (m : MethodSketch) : UInt32 := firstToken + UInt32.ofNat m.order

namespace TypeSketch

mutual

/-- A type and the types nested in it, outer ones first. -/
def flat : TypeSketch → List TypeSketch
  | { ns, name, isValueType, genericParams, methods, nested } =>
    { ns, name, isValueType, genericParams, methods, nested } :: flatAll nested

def flatAll : List TypeSketch → List TypeSketch
  | [] => []
  | t :: ts => t.flat ++ flatAll ts

end

mutual

/-- Numbers the methods of a type, and of those nested in it, from some number on: each after those
before it. -/
def numbered (n : Nat) : TypeSketch → TypeSketch × Nat
  | { ns, name, isValueType, genericParams, methods, nested } =>
    let (inner, next) := numberedAll (n + methods.length) nested
    ({ ns, name, isValueType, genericParams, methods := methods.mapIdx fun i m => { m with order := n + i },
       nested := inner }, next)

def numberedAll (n : Nat) : List TypeSketch → List TypeSketch × Nat
  | [] => ([], n)
  | t :: ts =>
    let (t, next) := numbered n t
    let (ts, last) := numberedAll next ts
    (t :: ts, last)

end

end TypeSketch

def ModuleSketch.methods (s : ModuleSketch) : List MethodSketch := (TypeSketch.flatAll s.types).flatMap (·.methods)

namespace ModuleSketch

mutual

def declareType (moduleName : String) (enclosing : Option TypeRef) :
    TypeSketch → List (TypeRef × List MethodRef)
  | { ns, name, isValueType, genericParams := _, methods, nested } =>
    let ref : TypeRef :=
      { ns := if enclosing.isSome then "" else ns, name, moduleName, isValueType,
        declaring := enclosing }
    (ref, methods.map fun m =>
        { declaring := ref, name := m.name, params := m.params, returns := m.returns }) ::
      declareTypes moduleName (some ref) nested

def declareTypes (moduleName : String) (enclosing : Option TypeRef) :
    List TypeSketch → List (TypeRef × List MethodRef)
  | [] => []
  | t :: ts => declareType moduleName enclosing t ++ declareTypes moduleName enclosing ts

end

def declarations (s : ModuleSketch) : Declarations := ⟨declareTypes s.name none s.types⟩

/-- Builds a method. A body ends with a return. -/
def buildMethod (d : Declarations) (m : MethodSketch) : MethodDef :=
  { token := m.token, name := m.name, params := m.params, returns := m.returns, genericParams := m.genericParams,
    body := (m.run d).body }

mutual

def buildType (d : Declarations) (isNested : Bool) : TypeSketch → TypeDef
  | { ns, name, isValueType, genericParams, methods, nested } =>
    { ns := if isNested then "" else ns, name, isValueType, genericParams, methods := methods.map (buildMethod d),
      nested := buildTypes d true nested }

def buildTypes (d : Declarations) (isNested : Bool) : List TypeSketch → List TypeDef
  | [] => []
  | t :: ts => buildType d isNested t :: buildTypes d isNested ts

end

/-- The module without symbols, and its symbols apart, in which only methods with points have
entries. -/
def buildSplit (s : ModuleSketch) : Module × Symbols :=
  let types := buildTypes s.declarations false s.types
  (Module.link
    { formatVersion := 1, name := s.name, version := s.version, runtimeVersion := s.runtimeVersion,
      isDebugBuild := s.isDebugBuild, types := if types.isEmpty then none else some types },
   ⟨s.name, some ((s.methods.filter fun m => !(m.run s.declarations).points.isEmpty).map fun m =>
     (m.token, some (m.run s.declarations).points.reverse))⟩)

def build (s : ModuleSketch) : Module :=
  let (m, symbols) := s.buildSplit
  if symbols.isEmpty then m else { m with symbols := some symbols }

end ModuleSketch

/-! ### JSON

The JSON form of a module is written and read through the packed one; only in symbol tables the
tokens of methods are names. -/

def Json.word (j : Json) : UInt32 := UInt32.ofNat (Word.unsigned 32 j.integer)

def Json.option {α : Type} (read : Json → α) : Json → Option α
  | .null => none
  | j => some (read j)

mutual

def Pack.toJson : Pack → Json
  | .bool b => .bool b
  | .int n _ => .int n
  | .bytes bs => .string (Text.ofBytes bs)
  | .array xs => .array (itemsToJson xs)
  | .map es => .object (entriesToJson es)
  | _ => .null

def Pack.itemsToJson : List Pack → List Json
  | [] => []
  | x :: xs => x.toJson :: itemsToJson xs

def Pack.entriesToJson : List (Pack × Pack) → List (String × Json)
  | [] => []
  | (k, v) :: es => (k.decodeText.getD "", v.toJson) :: entriesToJson es

end

mutual

def Json.toPack : Json → Pack
  | .null => .nil
  | .bool b => .bool b
  | .number s => .small (Json.number s).integer
  | .string s => .text s
  | .array xs => .array (itemsToPack xs)
  | .object fs => .map (fieldsToPack fs)

def Json.itemsToPack : List Json → List Pack
  | [] => []
  | x :: xs => x.toPack :: itemsToPack xs

def Json.fieldsToPack : List (String × Json) → List (Pack × Pack)
  | [] => []
  | (k, v) :: fs => (.text k, v.toPack) :: fieldsToPack fs

end

def TypeRef.toJson (t : TypeRef) : Json := t.toPack.toJson

instance : ToJson TypeRef := ⟨TypeRef.toJson⟩

def TypeRef.ofJson (fuel : Nat) (j : Json) : TypeRef :=
  (TypeRef.ofPack fuel { name := "" } j.toPack).getD { name := "" }

def GenericParam.ofJson (fuel : Nat) (j : Json) : GenericParam :=
  (GenericParam.ofPack fuel { name := "" } j.toPack).getD { name := "" }

def referenceDepth : Nat := 1000

def MethodRef.ofJson (j : Json) : MethodRef :=
  (MethodRef.ofPack ⟨{ name := "" }, "", [], ""⟩ j.toPack).getD ⟨{ name := "" }, "", [], ""⟩

namespace SequencePoint

def toJson (p : SequencePoint) : Json := p.toPack.toJson

instance : ToJson SequencePoint := ⟨toJson⟩

def ofJson (j : Json) : SequencePoint := (ofPack {} j.toPack).getD {}

end SequencePoint

namespace Symbols

def toJson (s : Symbols) : Json :=
  .object [("module", .string s.moduleName),
    ("methods", match s.methods with
      | none => .null
      | some es => .object (es.map fun (token, ps) =>
          (toString token.toNat, .array ((ps.getD []).map SequencePoint.toJson))))]

instance : ToJson Symbols := ⟨toJson⟩

def ofJson (j : Json) : Symbols :=
  { moduleName := (j.field "module").text
    methods := Json.option (fun ms => ms.fields.map fun (token, ps) =>
      (UInt32.ofNat (token.toNat?.getD 0), Json.option (·.items.map SequencePoint.ofJson) ps))
      (j.field "methods") }

end Symbols

namespace Module

def toJson (m : Module) : Json :=
  .object ({ m with symbols := none }.toPack.toJson.fields ++ m.symbols.toList.map (("symbols", Symbols.toJson ·)))

instance : ToJson Module := ⟨toJson⟩

def ofJson (j : Json) : Module :=
  { (ofPlainPack (Json.object (j.fields.filter (·.1 != "symbols"))).toPack).getD {} with
    symbols := Json.option Symbols.ofJson (j.field "symbols") }

end Module

/-! ### Sketches -/

def CallTarget.ofJson (j : Json) : CallTarget :=
  match (j.field "method").items with
  | t :: m :: _ => .declared t.natural m.natural
  | _ =>
    .named (MethodRef.ofNames (j.field "type").text (j.field "name").text (j.field "params").texts)

def TypeTarget.ofJson (j : Json) : TypeTarget :=
  match j.field "param", (j.field "method").items with
  | .null, t :: _ => .declared t.natural
  | .null, [] =>
    .named (if (j.field "value").truth then TypeRef.valueOfName (j.field "type").text
      else TypeRef.ofName (j.field "type").text)
  | p, _ => .named (TypeRef.ofParam (GenericParam.ofJson referenceDepth p))

def BodyStep.ofJson (j : Json) : BodyStep :=
  match (j.field "do").text with
  | "line" => .line (j.field "doc").text (j.field "line").integer
  | "hidden" => .hidden
  | "op" => .op ⟨(j.field "s").text⟩
  | "getter" =>
    .call Opcode.call (.named (MethodRef.getter (j.field "type").text (j.field "name").text))
  | "ldstr" =>
    .loadString (String.join
      (List.replicate (max (j.field "repeat").natural 1) (j.field "s").text))
  | "ldc" => .loadInt (j.field "i").integer
  | step =>
    if (⟨step⟩ : Opcode).isCall then .call ⟨step⟩ (CallTarget.ofJson j)
    else .convert ⟨step⟩ (TypeTarget.ofJson j)

def MethodSketch.ofJson (j : Json) : MethodSketch :=
  { name := (j.field "name").text
    params := (j.field "params").texts
    returns := (j.field "returns").text
    genericParams := (j.field "generic_params").items.map (GenericParam.ofJson referenceDepth)
    steps := (j.field "code").items.map BodyStep.ofJson }

def TypeSketch.ofJson (fuel : Nat) (j : Json) : TypeSketch :=
  match fuel with
  | 0 => { name := "" }
  | n + 1 =>
    { ns := (j.field "ns").text
      name := (j.field "name").text
      isValueType := (j.field "value_type").truth
      genericParams := (j.field "generic_params").items.map (GenericParam.ofJson referenceDepth)
      methods := (j.field "methods").items.map MethodSketch.ofJson
      nested := (j.field "nested").items.map (TypeSketch.ofJson n) }

/-- Reads a sketch. The methods are declared in the order in which they are listed. -/
def ModuleSketch.ofJson (j : Json) : ModuleSketch :=
  { name := (j.field "name").text
    version := match j.field "version" with
      | .null => "1.0.0"
      | v => v.text
    runtimeVersion := (j.field "runtime_version").text
    isDebugBuild := (j.field "debug").truth
    types := (TypeSketch.numberedAll 0 ((j.field "types").items.map (TypeSketch.ofJson referenceDepth))).1 }

end BytecodeAudit
