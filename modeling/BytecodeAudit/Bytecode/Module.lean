/-!
# Modules

A compiled module: its types with their methods and instruction bodies, and its debug symbols when
it carries them. Types nest, and a nested type knows the type around it once its module is linked.
Instructions are named by mnemonics, of which only calls and conversions have a meaning for the
audit.
-/

namespace BytecodeAudit

/-! ### Debug symbols

Points of generated code are hidden: they end the range of the point before, and are never shown.
Look-ups bisect the points of a method; loading a table sorts them. -/

structure SequencePoint where
  offset : UInt32 := 0
  document : String := ""
  line : Int := 0
  column : Int := 0
  hidden : Bool := false
deriving DecidableEq, Repr, Inhabited

/-- The sequence points of methods, by token. A table may be written without them, and so may a
method in it. -/
structure Symbols where
  moduleName : String := ""
  methods : Option (List (UInt32 × Option (List SequencePoint))) := none
deriving DecidableEq, Repr, Inhabited

namespace Symbols

def ofModule (name : String) : Symbols := ⟨name, some []⟩

def entries (s : Symbols) : List (UInt32 × Option (List SequencePoint)) := s.methods.getD []

def isEmpty (s : Symbols) : Bool := s.entries.isEmpty

def points (s : Symbols) (token : UInt32) : List SequencePoint :=
  ((s.entries.find? (·.1 == token)).bind (·.2)).getD []

def setEntry (token : UInt32) (ps : Option (List SequencePoint)) :
    List (UInt32 × Option (List SequencePoint)) → List (UInt32 × Option (List SequencePoint))
  | [] => [(token, ps)]
  | e :: es => if e.1 == token then (token, ps) :: es else e :: setEntry token ps es

def set (s : Symbols) (token : UInt32) (ps : Option (List SequencePoint)) : Symbols :=
  { s with methods := some (setEntry token ps s.entries) }

def add (s : Symbols) (token : UInt32) (p : SequencePoint) : Symbols :=
  s.set token (some (s.points token ++ [p]))

def hasMethod (s : Symbols) (token : UInt32) : Bool := !(s.points token).isEmpty

/-- By bisection, the least index between `lo` and `hi` from which on no offset is less than the one
sought. -/
def bisect (ps : Array SequencePoint) (offset : UInt32) (lo hi : Nat) : Nat :=
  if lo < hi then
    let mid := (lo + hi) / 2
    if (ps.getD mid {}).offset < offset then bisect ps offset (mid + 1) hi
    else bisect ps offset lo mid
  else lo
termination_by hi - lo

def pointAt? (s : Symbols) (token offset : UInt32) : Option SequencePoint :=
  let ps := (s.points token).toArray
  match ps[bisect ps offset 0 ps.size]? with
  | some p => if p.offset == offset && !p.hidden then some p else none
  | none => none

/-- Sorts the points of every method by offset; points with one offset keep their order. -/
def normalize (s : Symbols) : Symbols :=
  { s with methods := s.methods.map fun es =>
      es.map fun (token, ps) => (token, ps.map (·.mergeSort fun a b => a.offset ≤ b.offset)) }

end Symbols

/-! ### References to types and methods

A nested type is named by its declaring type and its own name, a type parameter together with its
constraints. -/

mutual

structure TypeRef where
  ns : String := ""
  name : String
  moduleName : String := ""
  isValueType : Bool := false
  declaring : Option TypeRef := none
  /-- The declaration of the type parameter that the reference names, if it names one. -/
  generic : Option GenericParam := none

structure GenericParam where
  name : String
  mustBeClass : Bool := false
  mustBeStruct : Bool := false
  constraints : List TypeRef := []

end

deriving instance Repr, Inhabited for TypeRef, GenericParam

namespace TypeRef

/-- The qualified name. The name of a nested type follows that of its declaring type after a
slash. -/
def fullName : TypeRef → String
  | { ns, name, declaring, .. } =>
    match declaring with
    | some d => d.fullName ++ "/" ++ name
    | none => if ns == "" then name else ns ++ "." ++ name

def topNamespace : TypeRef → String
  | { ns, declaring, .. } =>
    match declaring with
    | some d => d.topNamespace
    | none => ns

def isGeneric (t : TypeRef) : Bool := t.generic.isSome

/-- Splits at the last occurrence of a character, which belongs to neither part. -/
def splitAtLast? (c : Char) (cs : List Char) : Option (List Char × List Char) :=
  match cs.reverse.dropWhile (· != c) with
  | [] => none
  | _ :: front => some (front.reverse, (cs.reverse.takeWhile (· != c)).reverse)

/-- The reference of a name without nesting: the namespace ends at the last dot. -/
def ofSimpleName (cs : List Char) : TypeRef :=
  match splitAtLast? '.' cs with
  | some (ns, name) => { ns := String.ofList ns, name := String.ofList name }
  | none => { name := String.ofList cs }

def nameParts : List Char → List Char × List (List Char)
  | [] => ([], [])
  | '/' :: cs =>
    let (first, rest) := nameParts cs
    ([], first :: rest)
  | c :: cs =>
    let (first, rest) := nameParts cs
    (c :: first, rest)

/-- The reference of a qualified name: the part before the first slash is the outermost type, the
others are nested in turn. -/
def ofName (s : String) : TypeRef :=
  let (outer, inner) := nameParts s.toList
  inner.foldl (fun t name => { name := String.ofList name, declaring := some t }) (ofSimpleName outer)

def valueOfName (s : String) : TypeRef := { ofName s with isValueType := true }

def ofParam (p : GenericParam) : TypeRef := { name := p.name, generic := some p }

end TypeRef

/-- Whether every instantiation is a value type for sure. A parameter without constraints admits
reference types. -/
def GenericParam.isValueType (g : GenericParam) : Bool :=
  g.mustBeStruct ||
    (!g.mustBeClass && !g.constraints.isEmpty && g.constraints.all (·.isValueType))

structure MethodRef where
  declaring : TypeRef
  name : String
  params : List String := []
  returns : String := ""
deriving Repr, Inhabited

namespace MethodRef

def getterStart : String := "get_"

/-- The property that a getter reads; none for other methods. -/
def property? (m : MethodRef) : Option String :=
  if m.name.startsWith getterStart && m.name != getterStart then
    some (String.ofList (m.name.toList.drop getterStart.length))
  else none

def isGetter (m : MethodRef) : Bool := m.property?.isSome

/-- The identity of the method: type, name and parameter types. -/
def fullName (m : MethodRef) : String :=
  m.declaring.fullName ++ "::" ++ m.name ++ "(" ++ String.intercalate "," m.params ++ ")"

def prettyName (m : MethodRef) : String := m.declaring.fullName ++ "." ++ m.property?.getD m.name

def ofNames (typeName name : String) (params : List String) : MethodRef :=
  { declaring := TypeRef.ofName typeName, name, params }

def getter (typeName property : String) : MethodRef :=
  ofNames typeName (getterStart ++ property) []

end MethodRef

/-! ### Modules -/

structure Opcode where
  mnemonic : String
deriving DecidableEq, Repr, Inhabited

namespace Opcode

def ret : Opcode := ⟨"ret"⟩
def call : Opcode := ⟨"call"⟩
def callVirtual : Opcode := ⟨"callvirt"⟩
def newObject : Opcode := ⟨"newobj"⟩
def box : Opcode := ⟨"box"⟩
def unbox : Opcode := ⟨"unbox"⟩
def unboxAny : Opcode := ⟨"unbox.any"⟩
def loadString : Opcode := ⟨"ldstr"⟩
def loadInt : Opcode := ⟨"ldc.i4"⟩

/-- Whether the instruction transfers control to a method operand. -/
def isCall (o : Opcode) : Bool := o == call || o == callVirtual || o == newObject

/-- Whether the instruction converts between value and reference representations. -/
def isConversion (o : Opcode) : Bool := o == box || o == unbox || o == unboxAny

def isOfInterest (o : Opcode) : Bool := o.isCall || o.isConversion

def shortMnemonics : List String := ["nop", "ret", "pop", "ldarg", "ldloc", "stloc"]

def size (o : Opcode) : UInt32 := if shortMnemonics.contains o.mnemonic then 1 else 5

end Opcode

/-- An instruction. Calls have a method operand, conversions a type operand. -/
structure Instruction where
  offset : UInt32 := 0
  opcode : Opcode := ⟨""⟩
  method : Option MethodRef := none
  typeRef : Option TypeRef := none
  text : String := ""
  int : Int := 0
deriving Repr

structure MethodDef where
  token : UInt32 := 0
  name : String := ""
  params : List String := []
  returns : String := ""
  genericParams : List GenericParam := []
  body : List Instruction := []
deriving Repr, Inhabited

structure TypeDef where
  ns : String := ""
  name : String := ""
  isValueType : Bool := false
  genericParams : List GenericParam := []
  methods : List MethodDef := []
  nested : List TypeDef := []
  /-- The type around a nested one. It is not stored: linking a module sets it. -/
  declaring : Option TypeRef := none
deriving Repr, Inhabited

structure Module where
  formatVersion : Int := 0
  name : String := ""
  version : String := ""
  runtimeVersion : String := ""
  isDebugBuild : Bool := false
  /-- The types; a module that was written without their list has none. -/
  types : Option (List TypeDef) := none
  symbols : Option Symbols := none
deriving Repr

/-- The reference of a type, which leads outwards through the types around it. -/
def TypeDef.ref (t : TypeDef) : TypeRef :=
  { ns := t.ns, name := t.name, isValueType := t.isValueType, declaring := t.declaring }

def MethodDef.ref (owner : TypeRef) (m : MethodDef) : MethodRef :=
  { declaring := owner, name := m.name, params := m.params, returns := m.returns }

namespace Module

mutual

/-- Sets the type around a type, and around each type nested in it at any depth. -/
def linkType (declaring : Option TypeRef) : TypeDef → TypeDef
  | { ns, name, isValueType, genericParams, methods, nested, declaring := _ } =>
    { ns, name, isValueType, genericParams, methods, declaring
      nested := linkTypes (some { ns, name, isValueType, declaring }) nested }

def linkTypes (declaring : Option TypeRef) : List TypeDef → List TypeDef
  | [] => []
  | t :: ts => linkType declaring t :: linkTypes declaring ts

end

/-- Restores what nested types know of the types around them. -/
def link (m : Module) : Module := { m with types := m.types.map (linkTypes none) }

mutual

/-- A type and the types nested in it, outer ones first. -/
def walkType : TypeDef → List TypeDef
  | { ns, name, isValueType, genericParams, methods, nested, declaring } =>
    { ns, name, isValueType, genericParams, methods, nested, declaring } :: walkTypes nested

def walkTypes : List TypeDef → List TypeDef
  | [] => []
  | t :: ts => walkType t ++ walkTypes ts

end

/-- The types of a module, outer ones first. -/
def walk (m : Module) : List TypeDef := walkTypes (m.types.getD [])

/-- The methods of a module, each with the reference of its type. -/
def methods (m : Module) : List (TypeRef × MethodDef) := m.walk.flatMap fun t => t.methods.map (t.ref, ·)

def methodCount (m : Module) : Nat := m.methods.length

def hasSymbols (m : Module) : Bool :=
  match m.symbols with
  | some s => !s.isEmpty
  | none => false

def hasPoints (m : Module) (token : UInt32) : Bool :=
  match m.symbols with
  | some s => s.hasMethod token
  | none => false

def pointAt? (m : Module) (token offset : UInt32) : Option SequencePoint :=
  m.symbols.bind (·.pointAt? token offset)

end Module

end BytecodeAudit
