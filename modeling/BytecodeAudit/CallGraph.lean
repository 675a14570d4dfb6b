import Std.Data.HashMap
import BytecodeAudit.Digest
import BytecodeAudit.Issue

/-!
# Call graphs

The calls that a scan observes. A graph holds each pair of caller and callee once, as it was first
seen and in that order.
-/

namespace BytecodeAudit

/-- An observed call, by method identities; the other fields decorate the frame of the caller. -/
structure CallEdge where
  caller : String
  callee : String
  callerType : String := ""
  callerMethod : String := ""
  moduleName : String := ""
  location : Option Location := none
deriving DecidableEq, Repr, Inhabited

namespace CallEdge

def sameCall (a b : CallEdge) : Bool := a.caller == b.caller && a.callee == b.callee

def key (e : CallEdge) : UInt64 := Digest.XxHash.hash (Text.toBytes (e.caller ++ "->" ++ e.callee))

def frame (e : CallEdge) : CallNode :=
  .mk e.caller e.callerType e.callerMethod e.moduleName e.location [] false

def toJson (e : CallEdge) : Json :=
  .compactFields [("caller", some (.string e.caller)), ("callee", some (.string e.callee)),
    ("caller_type", Json.text? e.callerType), ("caller_method", Json.text? e.callerMethod),
    ("module", Json.text? e.moduleName), ("location", e.location.map Location.toJson)]

instance : ToJson CallEdge := ⟨toJson⟩

def fieldNames : List String :=
  ["caller", "callee", "caller_type", "caller_method", "module", "location"]

def decode (j : Json) : Option CallEdge :=
  Json.decodeFields fieldNames
    (fun e field j =>
      match field with
      | "caller" => (Json.decodeText e.caller j).map fun s => { e with caller := s }
      | "callee" => (Json.decodeText e.callee j).map fun s => { e with callee := s }
      | "caller_type" => (Json.decodeText e.callerType j).map fun s => { e with callerType := s }
      | "caller_method" =>
        (Json.decodeText e.callerMethod j).map fun s => { e with callerMethod := s }
      | "module" => (Json.decodeText e.moduleName j).map fun s => { e with moduleName := s }
      | "location" => (Location.decode e.location j).map fun l => { e with location := l }
      | _ => some e)
    { caller := "", callee := "" } j

end CallEdge

/-- A set of edges in the order of their insertion, indexed by a hash. -/
structure CallGraph where
  edges : Array CallEdge := #[]
  index : Std.HashMap UInt64 (List Nat) := {}

namespace CallGraph

def empty : CallGraph := {}

def size (g : CallGraph) : Nat := g.edges.size

def holdsUnder (g : CallGraph) (hash : UInt64) (e : CallEdge) : Bool :=
  (g.index.getD hash []).any fun i =>
    match g.edges[i]? with
    | some x => x.sameCall e
    | none => false

/-- Inserts an edge indexed under a hash, unless there is one between the same methods. -/
def addUnder (g : CallGraph) (hash : UInt64) (e : CallEdge) : CallGraph × Bool :=
  if g.holdsUnder hash e then (g, false)
  else
    (⟨g.edges.push e, g.index.insert hash (g.index.getD hash [] ++ [g.edges.size])⟩, true)

def add (g : CallGraph) (e : CallEdge) : CallGraph × Bool := g.addUnder e.key e

def addAll (g : CallGraph) (es : List CallEdge) : CallGraph := es.foldl (fun g e => (g.add e).1) g

def merge (g other : CallGraph) : CallGraph := g.addAll other.edges.toList

def ofList (es : List CallEdge) : CallGraph := empty.addAll es

/-! ### Caller hierarchies

A depth limit ends the expansion on cycles. Only direct recursion is left out. -/

def defaultDepth : Nat := 10

def depthLimit (requested : Int) : Nat := if requested ≤ 0 then defaultDepth else requested.toNat

/-- The recorded calls of a method by other methods, in the order of insertion. -/
def callers (edges : List CallEdge) (method : String) : List CallEdge :=
  edges.filter fun e => e.callee == method && e.caller != method

/-- The callers of a method as frames, with `remaining` levels below them. A frame at the last level
is marked if it has callers. -/
def callerFrames (edges : List CallEdge) : Nat → String → List CallNode
  | 0, _ => []
  | remaining + 1, method =>
    (callers edges method).map fun e =>
      if remaining = 0 then e.frame.withTruncated (!(callers edges e.caller).isEmpty)
      else e.frame.withChildren (callerFrames edges remaining e.caller)

def expand (g : CallGraph) (depth : Nat) (n : CallNode) : CallNode :=
  n.withChildren (n.children ++ callerFrames g.edges.toList depth n.name)

def hierarchy (g : CallGraph) (method : String) (depth : Int) : CallNode :=
  g.expand (depthLimit depth) (CallNode.named method)

def expandIssue (g : CallGraph) (depth : Int) (i : Issue) : Issue :=
  { i with dependencies := i.dependencies.map (g.expand (depthLimit depth)) }

/-! ### The shape of a call graph

A cycle is a class of two or more methods that reach one another. -/

/-- The names reached from the pending ones inside a finite set of remaining names, from which each
step takes one. -/
def reach (next : String → List String) (remaining pending : List String) : List String :=
  match _found : pending.find? remaining.contains with
  | none => []
  | some name => name :: reach next (remaining.erase name) (next name ++ pending)
termination_by remaining.length
decreasing_by
  have mem : name ∈ remaining := List.contains_iff_mem.mp (List.find?_some _found)
  have smaller := List.length_erase_of_mem mem
  have positive := List.length_pos_of_mem mem
  omega

def methods (edges : List CallEdge) : List String :=
  (edges.flatMap fun e => [e.caller, e.callee]).eraseDups

def callees (edges : List CallEdge) (method : String) : List String :=
  (edges.filter (·.caller == method)).map (·.callee)

def callerNames (edges : List CallEdge) (method : String) : List String :=
  (edges.filter (·.callee == method)).map (·.caller)

def reachedFrom (edges : List CallEdge) (method : String) : List String :=
  reach (callees edges) (methods edges) [method]

def reaching (edges : List CallEdge) (method : String) : List String :=
  reach (callerNames edges) (methods edges) [method]

def cycleOf (edges : List CallEdge) (method : String) : List String :=
  ((reachedFrom edges method).filter (reaching edges method).contains).mergeSort
    (Text.rank · ≤ Text.rank ·)

/-- The classes of mutual reachability with at least two methods, in ascending order of their first
names. -/
def cycles (edges : List CallEdge) : List (List String) :=
  ((methods edges).mergeSort (Text.rank · ≤ Text.rank ·)).filterMap fun m =>
    let cycle := cycleOf edges m
    if 2 ≤ cycle.length && cycle.head? == some m then some cycle else none

end CallGraph

structure CallStats where
  methods : Nat
  edges : Nat
  roots : Nat
  cycles : List (List String)
  selfCalls : Nat
deriving DecidableEq, Repr, Inhabited

namespace CallStats

def toJson (s : CallStats) : Json :=
  .compactFields [("methods", some (.nat s.methods)), ("edges", some (.nat s.edges)),
    ("roots", some (.nat s.roots)), ("cycles", Json.nonempty? (s.cycles.map Json.strings)),
    ("self_calls", some (.nat s.selfCalls))]

instance : ToJson CallStats := ⟨toJson⟩

end CallStats

def CallGraph.stats (g : CallGraph) : CallStats :=
  let edges := g.edges.toList
  let names := methods edges
  { methods := names.length
    edges := edges.length
    roots := (names.filter fun m => !edges.any fun e => e.callee == m && e.caller != m).length
    cycles := cycles edges
    selfCalls := (edges.filter fun e => e.caller == e.callee).length }

end BytecodeAudit
