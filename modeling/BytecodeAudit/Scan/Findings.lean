import BytecodeAudit.Bytecode.Module
import BytecodeAudit.CallGraph
import BytecodeAudit.Descriptor.Basic
import BytecodeAudit.Pack.Basic

/-!
# Scanning modules

A scan walks the methods of a module, types in declaration order with nested types after the methods
of the type around them, and reports each instruction of interest with its surroundings. The
findings of a scan are the issues in the order of the instructions, and the calls, each once; they
have a packed form, in which they are kept between audits.
-/

namespace BytecodeAudit

structure ScannedInstruction where
  opcode : Opcode
  offset : UInt32
  moduleName : String
  caller : MethodRef
  callee : Option MethodRef
  operand : Option TypeRef
  /-- The nearest source position at or before the instruction. -/
  location : Option Location

namespace ScannedInstruction

def methodId (i : ScannedInstruction) : String := i.caller.fullName

def callNode (i : ScannedInstruction) : CallNode :=
  .mk i.methodId i.caller.declaring.fullName i.caller.name i.moduleName i.location [] false

def edge? (i : ScannedInstruction) : Option CallEdge :=
  match i.callee with
  | some callee =>
    if i.opcode.isCall then
      some { caller := i.methodId, callee := callee.fullName,
             callerType := i.caller.declaring.fullName, callerMethod := i.caller.name,
             moduleName := i.moduleName, location := i.location }
    else none
  | none => none

def toJson (i : ScannedInstruction) : Json :=
  .compactFields [("op", some (.string i.opcode.mnemonic)), ("offset", some (.nat i.offset.toNat)),
    ("module", some (.string i.moduleName)), ("method", some (.string i.methodId)),
    ("node", some i.callNode.toJson), ("callee", i.callee.map fun m => .string m.fullName),
    ("operand", i.operand.map fun t => .string t.fullName), ("location", i.location.map Location.toJson)]

instance : ToJson ScannedInstruction := ⟨toJson⟩

end ScannedInstruction

inductive ScanEvent where
  | instruction (i : ScannedInstruction)
  | skipped (moduleName : String) (token : UInt32)

def ScanEvent.instruction? : ScanEvent → Option ScannedInstruction
  | .instruction i => some i
  | .skipped _ _ => none

namespace Module

def pointLocation (p : SequencePoint) : Location := ⟨p.document, p.line, p.column⟩

/-- Scans the rest of a body; `near` is the nearest source position before it. -/
def scanBody (m : Module) (all : Bool) (token : UInt32) (caller : MethodRef)
    (near : Option Location) : List Instruction → List ScanEvent
  | [] => []
  | i :: is =>
    let near := match m.pointAt? token i.offset with
      | some p => some (pointLocation p)
      | none => near
    let rest := m.scanBody all token caller near is
    if all || i.opcode.isOfInterest then
      .instruction
        { opcode := i.opcode, offset := i.offset, moduleName := m.name, caller, callee := i.method,
          operand := i.typeRef, location := near } :: rest
    else rest

def scanMethod (m : Module) (all : Bool) (owner : TypeRef) (method : MethodDef) : List ScanEvent :=
  if method.body.isEmpty then []
  else if !m.hasPoints method.token then [.skipped m.name method.token]
  else
    let caller := method.ref { owner with moduleName := m.name }
    m.scanBody all method.token caller none method.body

/-- What a scan of a module comes across, if nothing stops it. -/
def scan (m : Module) (all : Bool) : List ScanEvent :=
  m.methods.flatMap fun (owner, method) => m.scanMethod all owner method

def instructions (m : Module) : List ScannedInstruction :=
  (m.scan false).filterMap ScanEvent.instruction?

end Module

/-- The tokens of the methods that scans skipped, by module name, each once and in ascending
order. -/
structure SkippedMethods where
  tokens : List (String × List UInt32) := []
deriving Repr

namespace SkippedMethods

def insertToken (token : UInt32) : List UInt32 → List UInt32
  | [] => [token]
  | t :: ts =>
    if t == token then t :: ts else if token < t then token :: t :: ts else t :: insertToken token ts

def insert (moduleName : String) (token : UInt32) (tokens : List (String × List UInt32)) :
    List (String × List UInt32) :=
  Text.place moduleName [token] (insertToken token) tokens

def record (s : SkippedMethods) (es : List ScanEvent) : SkippedMethods :=
  es.foldl (fun s e =>
    match e with
    | .skipped m t => ⟨insert m t s.tokens⟩
    | .instruction _ => s) s

def ofModule (s : SkippedMethods) (name : String) : List UInt32 :=
  ((s.tokens.find? (·.1 == name)).map (·.2)).getD []

def count (s : SkippedMethods) : Nat := (s.tokens.map fun (_, ts) => ts.length).foldl (· + ·) 0

def modules (s : SkippedMethods) : List String := s.tokens.map (·.1)

def toJson (s : SkippedMethods) : Json :=
  .object [("count", .nat s.count), ("modules", .strings s.modules),
    ("tokens", .object (s.tokens.map fun (m, ts) => (m, .array (ts.map fun t => .nat t.toNat))))]

instance : ToJson SkippedMethods := ⟨toJson⟩

end SkippedMethods

/-! ### Passes

A pass hands the instructions of a module to a consumer, one by one, as long as it wants more of
them. -/

/-- Goes through a list until a member says that nothing more is wanted. The flag tells whether none
did. -/
def loopWhile {σ α : Type} (visit : σ → α → σ × Bool) (s : σ) : List α → σ × Bool
  | [] => (s, true)
  | x :: xs =>
    match visit s x with
    | (s, true) => loopWhile visit s xs
    | (s, false) => (s, false)

/-- The state of a pass: that of the consumer, and the methods that were skipped. -/
structure Pass (σ : Type) where
  consumer : σ
  skipped : SkippedMethods := {}

namespace Module

section Pass

variable {σ : Type} (m : Module) (all : Bool) (take : σ → ScannedInstruction → σ × Bool)

/-- Hands over the rest of a body; `near` is the nearest source position before it. -/
def passBody (token : UInt32) (caller : MethodRef) (near : Option Location) (s : Pass σ) :
    List Instruction → Pass σ × Bool
  | [] => (s, true)
  | i :: is =>
    let near := match m.pointAt? token i.offset with
      | some p => some (pointLocation p)
      | none => near
    if all || i.opcode.isOfInterest then
      match take s.consumer
        { opcode := i.opcode, offset := i.offset, moduleName := m.name, caller, callee := i.method,
          operand := i.typeRef, location := near } with
      | (c, true) => passBody token caller near { s with consumer := c } is
      | (c, false) => ({ s with consumer := c }, false)
    else passBody token caller near s is

def passMethod (owner : TypeRef) (s : Pass σ) (method : MethodDef) : Pass σ × Bool :=
  if method.body.isEmpty then (s, true)
  else if !m.hasPoints method.token then
    ({ s with skipped := ⟨SkippedMethods.insert m.name method.token s.skipped.tokens⟩ }, true)
  else m.passBody all take method.token (method.ref { owner with moduleName := m.name }) none s method.body

mutual

/-- Hands over the methods of a type, and then those of the types nested in it. -/
def passType (s : Pass σ) : TypeDef → Pass σ × Bool
  | { ns, name, isValueType, genericParams, methods, nested, declaring } =>
    let t : TypeDef := { ns, name, isValueType, genericParams, methods, nested, declaring }
    match loopWhile (m.passMethod all take t.ref) s methods with
    | (s, true) => passTypes s nested
    | (s, false) => (s, false)

def passTypes (s : Pass σ) : List TypeDef → Pass σ × Bool
  | [] => (s, true)
  | t :: ts =>
    match passType s t with
    | (s, true) => passTypes s ts
    | (s, false) => (s, false)

end

def pass (s : Pass σ) : Pass σ × Bool := m.passTypes all take s (m.types.getD [])

end Pass

/-- A consumer that keeps the instructions up to a number; zero is no limit. -/
def keepUpTo (limit : Nat) (kept : List ScannedInstruction) (i : ScannedInstruction) : List ScannedInstruction × Bool :=
  (kept ++ [i], kept.length + 1 != limit)

/-- Passes over several modules, up to a number of instructions in all. -/
def passAll (ms : List Module) (all : Bool) (limit : Nat) (skipped : SkippedMethods) : Pass (List ScannedInstruction) :=
  (loopWhile (fun s m => m.pass all (keepUpTo limit) s) { consumer := [], skipped } ms).1

end Module

/-! ### Matching instructions with descriptors

A matcher indexes the descriptors that apply: by member for calls, by namespace for wildcards, and
by opcode for conversions. Of several for a member or a namespace the greatest id stands; of several
for an opcode the least. -/

structure Matcher where
  category : Category := Category.code
  exact : Std.HashMap (String × String) Descriptor := {}
  wildcards : Std.HashMap String Descriptor := {}
  opcodes : Std.HashMap String (List Descriptor) := {}

structure MatchedIssue where
  issue : Issue
  warning : Option LogRecord := none

namespace Matcher

def insert (m : Matcher) (d : Descriptor) : Matcher :=
  if d.isOpcodeOnly then
    { m with opcodes := m.opcodes.insert d.opcode (m.opcodes.getD d.opcode [] ++ [d]) }
  else if d.isWildcard then { m with wildcards := m.wildcards.insert d.typeName d }
  else if d.typeName != "" && d.method != "" then
    { m with exact := m.exact.insert (d.typeName, d.method) d }
  else m

def ofCatalog (c : Catalog) (platform : Platform) (version : String)
    (category : Category := Category.code) : Matcher :=
  (c.list.filter (·.isApplicable platform version)).foldl insert { category }

def size (m : Matcher) : Nat :=
  m.exact.size + m.wildcards.size + (m.opcodes.fold (fun n _ ds => n + ds.length) 0)

def issueAt (m : Matcher) (i : ScannedInstruction) (d : Descriptor) (description : String) : Issue :=
  { category := m.category, description, descriptorId := d.id, dependencies := some i.callNode,
    location := i.location, properties := [i.moduleName] }

def misfit (d : Descriptor) (args : Nat) : LogRecord :=
  { level := .warning, message := "descriptor message does not fit its arguments",
    values := [("descriptor", d.id), ("format", d.messageFormat), ("args", toString args)] }

/-- The issue of a descriptor at an instruction, worded for what was used and the method that uses
it. Stray bytes of the two may make up a character where they meet. -/
def describe (m : Matcher) (i : ScannedInstruction) (d : Descriptor) (used : String) :
    MatchedIssue :=
  let args : List Text.Template.Arg := [.text used, .text i.caller.prettyName]
  let (description, fits) := d.message args
  { issue := m.issueAt i d (Text.ofBytes (Text.toBytes description))
    warning := if fits then none else some (misfit d args.length) }

/-- The descriptor of a called member: by its name, or by the property that a getter reads. -/
def member? (m : Matcher) (callee : MethodRef) : Option Descriptor :=
  let typeName := callee.declaring.fullName
  m.exact[(typeName, callee.name)]? <|>
    callee.property?.bind fun property => m.exact[(typeName, property)]?

/-- The issue of a call. A wildcard names the member itself. -/
def matchCall? (m : Matcher) (i : ScannedInstruction) (callee : MethodRef) : Option MatchedIssue :=
  match m.member? callee with
  | some d => some (m.describe i d callee.prettyName)
  | none =>
    (m.wildcards[callee.declaring.topNamespace]?).map fun d =>
      { issue := m.issueAt i d callee.prettyName }

/-- Whether a conversion does nothing: boxing a type parameter that may be a reference type. -/
def isNoConversion (opcode : Opcode) (operand : Option TypeRef) : Bool :=
  match operand.bind (·.generic) with
  | some g => opcode == Opcode.box && !g.isValueType
  | none => false

def matchConversion? (m : Matcher) (i : ScannedInstruction) : Option MatchedIssue :=
  match m.opcodes.getD i.opcode.mnemonic [] with
  | [] => none
  | d :: _ =>
    if isNoConversion i.opcode i.operand then none
    else
      some (m.describe i d (match i.operand with
        | some t => t.fullName
        | none => ""))

def match? (m : Matcher) (i : ScannedInstruction) : Option MatchedIssue :=
  if i.opcode.isCall then i.callee.bind (m.matchCall? i)
  else if i.opcode.isConversion then m.matchConversion? i
  else none

end Matcher

/-! ### Findings -/

structure Findings where
  issues : List Issue := []
  edges : List CallEdge := []
deriving Inhabited, Repr

def Findings.ofInstructions (matcher : Matcher) (is : List ScannedInstruction) : Findings × List LogRecord :=
  let matched := is.filterMap matcher.match?
  ({ issues := matched.map (·.issue)
     edges := (CallGraph.ofList (is.filterMap ScannedInstruction.edge?)).edges.toList },
    matched.filterMap (·.warning))

/-! ### The packed form -/

def Location.toPack (l : Location) : Pack :=
  .record [("Path", some (.text l.path)), ("Line", some (.small l.line)),
    ("Column", some (.small l.column))]

def Location.ofPack (cur : Location) (p : Pack) : Option Location :=
  Pack.decodeRecord ["Path", "Line", "Column"]
    (fun (l : Location) field v =>
      match field with
      | "Path" => v.decodeText.map fun s => { l with path := s }
      | "Line" => v.decodeLong.map fun n => { l with line := n }
      | "Column" => v.decodeLong.map fun n => { l with column := n }
      | _ => some l)
    ⟨"", 0, 0⟩ cur p

def Pack.optional {α : Type} (f : α → Pack) : Option α → Pack
  | some a => f a
  | none => .nil

def Pack.listed (xs : List Pack) : Pack := if xs.isEmpty then .nil else .array xs

namespace CallNode

def packFields : List String :=
  ["Name", "Type", "Method", "Module", "Location", "Children", "Truncated"]

mutual

def toPack : CallNode → Pack
  | .mk n t m o l cs b =>
    .record [("Name", some (.text n)), ("Type", some (.text t)), ("Method", some (.text m)),
      ("Module", some (.text o)), ("Location", some (Pack.optional Location.toPack l)),
      ("Children", some (Pack.listed (childrenToPack cs))), ("Truncated", some (.bool b))]
  | .gap => .nil

def childrenToPack : List CallNode → List Pack
  | [] => []
  | c :: cs => c.toPack :: childrenToPack cs

end

def ofPack (fuel : Nat) (cur : CallNode) (p : Pack) : Option CallNode :=
  match fuel with
  | 0 => none
  | fuel + 1 =>
    Pack.decodeRecord packFields
      (fun (c : CallNode) field v =>
        match c, field with
        | .mk _ t m o l cs b, "Name" => v.decodeText.map fun n => .mk n t m o l cs b
        | .mk n _ m o l cs b, "Type" => v.decodeText.map fun t => .mk n t m o l cs b
        | .mk n t _ o l cs b, "Method" => v.decodeText.map fun m => .mk n t m o l cs b
        | .mk n t m _ l cs b, "Module" => v.decodeText.map fun o => .mk n t m o l cs b
        | .mk n t m o l cs b, "Location" =>
          (Pack.decodeOption ⟨"", 0, 0⟩ Location.ofPack l v).map fun l => .mk n t m o l cs b
        | .mk n t m o l cs b, "Children" =>
          (Pack.decodeList (named "") (ofPack fuel) cs v).map fun cs => .mk n t m o l (cs.getD []) b
        | .mk n t m o l cs _, "Truncated" => v.decodeBool.map fun b => .mk n t m o l cs b
        | c, _ => some c)
      (named "") cur p

end CallNode

def Issue.packFields : List String :=
  ["Category", "Severity", "Description", "DescriptorID", "Dependencies", "Location", "Properties",
    "Fixed"]

def Issue.toPack (i : Issue) : Pack :=
  .record [("Category", some (.text i.category.name)), ("Severity", some (.text i.severity.label)),
    ("Description", some (.text i.description)), ("DescriptorID", some (.text i.descriptorId)),
    ("Dependencies", some (Pack.optional CallNode.toPack i.dependencies)),
    ("Location", some (Pack.optional Location.toPack i.location)),
    ("Properties", some (Pack.listed (i.properties.map .text))), ("Fixed", some (.bool i.fixed))]

def Issue.ofPack (cur : Issue) (p : Pack) : Option Issue :=
  Pack.decodeRecord packFields
    (fun (i : Issue) field v =>
      match field with
      | "Category" => v.decodeText.map fun s => { i with category := ⟨s⟩ }
      | "Severity" => v.decodeText.map fun s => { i with severity := ⟨s⟩ }
      | "Description" => v.decodeText.map fun s => { i with description := s }
      | "DescriptorID" => v.decodeText.map fun s => { i with descriptorId := s }
      | "Dependencies" =>
        (Pack.decodeOption (CallNode.named "") (CallNode.ofPack v.depth) i.dependencies v).map
          fun n => { i with dependencies := n }
      | "Location" =>
        (Pack.decodeOption ⟨"", 0, 0⟩ Location.ofPack i.location v).map fun l => { i with location := l }
      | "Properties" => (v.decodeTexts i.properties).map fun ps => { i with properties := ps }
      | "Fixed" => v.decodeBool.map fun b => { i with fixed := b }
      | _ => some i)
    { category := ⟨""⟩, description := "" } cur p

def CallEdge.toPack (e : CallEdge) : Pack :=
  .record [("caller", some (.text e.caller)), ("callee", some (.text e.callee)),
    ("caller_type", Pack.text? e.callerType), ("caller_method", Pack.text? e.callerMethod),
    ("module", Pack.text? e.moduleName), ("location", e.location.map Location.toPack)]

def CallEdge.ofPack (cur : CallEdge) (p : Pack) : Option CallEdge :=
  Pack.decodeRecord fieldNames
    (fun (e : CallEdge) field v =>
      match field with
      | "caller" => v.decodeText.map fun s => { e with caller := s }
      | "callee" => v.decodeText.map fun s => { e with callee := s }
      | "caller_type" => v.decodeText.map fun s => { e with callerType := s }
      | "caller_method" => v.decodeText.map fun s => { e with callerMethod := s }
      | "module" => v.decodeText.map fun s => { e with moduleName := s }
      | "location" =>
        (Pack.decodeOption ⟨"", 0, 0⟩ Location.ofPack e.location v).map fun l => { e with location := l }
      | _ => some e)
    { caller := "", callee := "" } cur p

namespace Findings

def toPack (f : Findings) : Pack :=
  .record [("issues", some (Pack.listed (f.issues.map Issue.toPack))),
    ("edges", some (.array (f.edges.map CallEdge.toPack)))]

def ofPack (p : Pack) : Option Findings :=
  Pack.decodeRecord ["issues", "edges"]
    (fun (f : Findings) field v =>
      match field with
      | "issues" =>
        (Pack.decodeList { category := ⟨""⟩, description := "" } Issue.ofPack f.issues v).map
          fun is => { f with issues := is.getD [] }
      | "edges" =>
        (Pack.decodeList { caller := "", callee := "" } CallEdge.ofPack f.edges v).map
          fun es => { f with edges := es.getD [] }
      | _ => some f)
    {} {} p

def encode (f : Findings) : List UInt8 := f.toPack.write

def decode? (bs : List UInt8) : Option Findings := do
  let (p, _) ← Pack.read? bs
  ofPack p

end Findings

end BytecodeAudit
