import Mathlib.Data.List.Nodup
import BytecodeAudit.CallGraph

/-!
# Chains of calls

The caller tree of a method unfolds the calls that lead to it. The ways down from its root,
`CallNode.descents`, from left to right, and the chains of recorded calls that lead to the method,
`CallGraph.chains`, in the order of insertion, agree for every number of calls up to the limit
(`IsCallerTree.frames`). A graph records every pair of methods once (`pairwise_edges_ofList`), so
the names along a chain tell it from all others (`nodup_chains`).
-/

namespace BytecodeAudit

open List

/-! ### Calls in a graph

Insertion goes through an index by hash, which never shows (`edges_addUnder`). A graph is the list
of its calls with later repetitions left out (`edges_ofList`), and inserting the calls of several
graphs is inserting all the calls they were made from (`edges_foldl_addAll`). -/

namespace CallEdge

lemma sameCall_iff {a b : CallEdge} : a.sameCall b ↔ a.caller = b.caller ∧ a.callee = b.callee := by
  rw [sameCall, Bool.and_eq_true, beq_iff_eq, beq_iff_eq]

lemma sameCall_comm (a b : CallEdge) : a.sameCall b = b.sameCall a := by
  rw [Bool.eq_iff_iff, sameCall_iff, sameCall_iff, eq_comm, @eq_comm _ a.callee]

lemma sameCall_trans {a b c : CallEdge} (hab : a.sameCall b) (hbc : b.sameCall c) : a.sameCall c = true := by
  rw [sameCall_iff] at hab hbc ⊢
  exact ⟨hab.1.trans hbc.1, hab.2.trans hbc.2⟩

lemma key_eq_of_sameCall {a b : CallEdge} (h : a.sameCall b) : a.key = b.key := by
  obtain ⟨hcaller, hcallee⟩ := sameCall_iff.1 h
  rw [key, key, hcaller, hcallee]

end CallEdge

namespace CallGraph

variable {g : CallGraph} {e : CallEdge}

/-! ### The index -/

/-- Whether the positions under every hash are those of the edges with it, in ascending order. -/
def Indexes (hash : CallEdge → UInt64) (g : CallGraph) : Prop :=
  ∀ h, g.index.getD h [] = (range g.edges.size).filter fun i => g.edges[i]?.any (hash · == h)

lemma indexes_empty (hash : CallEdge → UInt64) : empty.Indexes hash := by
  intro h
  simp [empty]

variable {hash : CallEdge → UInt64} (acc es : List CallEdge)

lemma holdsUnder_iff (hg : g.Indexes hash) (hhash : ∀ a b : CallEdge, a.sameCall b → hash a = hash b)
    (e : CallEdge) : g.holdsUnder (hash e) e = g.edges.toList.any (·.sameCall e) := by
  rw [Bool.eq_iff_iff, holdsUnder, any_eq_true, any_eq_true, hg]
  constructor
  · rintro ⟨i, hi, hsame⟩
    obtain ⟨x, hx, -⟩ := (Option.any_eq_true _ _).1 (mem_filter.1 hi).2
    simp only [hx] at hsame
    exact ⟨x, Array.mem_toList_iff.2 (Array.mem_of_getElem? hx), hsame⟩
  · rintro ⟨x, hx, hsame⟩
    obtain ⟨i, hi⟩ := Array.mem_iff_getElem?.1 (Array.mem_toList_iff.1 hx)
    obtain ⟨hlt, -⟩ := Array.getElem?_eq_some_iff.1 hi
    refine ⟨i, mem_filter.2 ⟨mem_range.2 hlt, ?_⟩, ?_⟩
    · rw [hi, Option.any_some, hhash x e hsame, beq_self_eq_true]
    · simpa only [hi] using hsame

/-- Appends an edge unless there is one between the same methods. -/
def insertEdge (es : List CallEdge) (e : CallEdge) : List CallEdge :=
  if es.any (·.sameCall e) then es else es ++ [e]

lemma edges_addUnder (hg : g.Indexes hash) (hhash : ∀ a b : CallEdge, a.sameCall b → hash a = hash b)
    (e : CallEdge) : (g.addUnder (hash e) e).1.edges.toList = insertEdge g.edges.toList e := by
  rw [addUnder, holdsUnder_iff hg hhash, insertEdge]
  split
  · rfl
  · exact Array.toList_push

lemma Indexes.addUnder (hg : g.Indexes hash) (e : CallEdge) : (g.addUnder (hash e) e).1.Indexes hash := by
  rw [CallGraph.addUnder]
  split
  · exact hg
  intro h
  have hbefore : ((range g.edges.size).filter fun i => (g.edges.push e)[i]?.any (hash · == h)) = g.index.getD h [] := by
    rw [hg h]
    refine filter_congr fun i hi => ?_
    rw [Array.getElem?_push, if_neg (Nat.ne_of_lt (mem_range.1 hi))]
  rw [Array.size_push, range_succ, filter_append, hbefore, Std.HashMap.getD_insert]
  -- the new position is the last one, and stands under the hash of the new edge only
  by_cases heq : hash e = h
  · subst heq
    simp
  · simp [heq]

lemma edges_foldl_addUnder (hhash : ∀ a b : CallEdge, a.sameCall b → hash a = hash b) (hg : g.Indexes hash)
    (es : List CallEdge) : (es.foldl (fun g e => (g.addUnder (hash e) e).1) g).Indexes hash ∧
      (es.foldl (fun g e => (g.addUnder (hash e) e).1) g).edges.toList = es.foldl insertEdge g.edges.toList := by
  induction es generalizing g with
  | nil => exact ⟨hg, rfl⟩
  | cons e es ih =>
    obtain ⟨hindexes, hedges⟩ := ih (hg.addUnder e)
    rw [edges_addUnder hg hhash] at hedges
    exact ⟨hindexes, hedges⟩

lemma edges_addAll (hg : g.Indexes CallEdge.key) (es : List CallEdge) :
    (g.addAll es).Indexes CallEdge.key ∧ (g.addAll es).edges.toList = es.foldl insertEdge g.edges.toList :=
  edges_foldl_addUnder (fun _ _ => CallEdge.key_eq_of_sameCall) hg es

/-! ### Calls in the order of first sight -/

lemma foldl_insertEdge : es.foldl insertEdge acc =
      acc ++ (es.filter fun e => !acc.any (·.sameCall e)).eraseDupsBy CallEdge.sameCall := by
  induction es generalizing acc with
  | nil => rw [foldl_nil, filter_nil, eraseDupsBy_nil, append_nil]
  | cons e es ih =>
    rw [foldl_cons, ih, insertEdge]
    by_cases h : acc.any (·.sameCall e) = true
    · rw [if_pos h, filter_cons_of_neg (by simp [h])]
    · have hfilter : (es.filter fun b => !(acc ++ [e]).any (·.sameCall b)) =
          (es.filter fun b => !acc.any (·.sameCall b)).filter fun b => b.sameCall e = false := by
        rw [filter_filter]
        refine filter_congr fun b _ => ?_
        rw [any_append, Bool.not_or, Bool.and_comm, any_cons, any_nil, Bool.or_false,
          CallEdge.sameCall_comm e b, Bool.decide_eq_false]
      rw [if_neg h, filter_cons_of_pos (by simpa using h), eraseDupsBy_cons, append_assoc, hfilter, singleton_append]

lemma mem_of_mem_eraseDupsBy {same : CallEdge → CallEdge → Bool} {es : List CallEdge} (h : e ∈ es.eraseDupsBy same) :
    e ∈ es := by
  -- on the length, since what is left after the first edge is a filtered list
  induction hn : es.length using Nat.strongRecOn generalizing es with
  | ind n ih =>
    subst hn
    cases es with
    | nil => exact h
    | cons x es =>
      have hlt : (es.filter fun b => same b x = false).length < (x :: es).length :=
        Nat.lt_succ_of_le (length_filter_le ..)
      rw [eraseDupsBy_cons, mem_cons] at h
      rcases h with rfl | h
      · exact mem_cons_self
      · exact mem_cons_of_mem x (mem_of_mem_filter (ih _ hlt h rfl))

lemma edges_ofList (es : List CallEdge) : (ofList es).edges.toList = es.eraseDupsBy CallEdge.sameCall := by
  rw [ofList, (edges_addAll (indexes_empty _) es).2, foldl_insertEdge]
  simp [empty]

lemma any_insertEdge (acc : List CallEdge) (e : CallEdge) : (insertEdge acc e).any (·.sameCall e) = true := by
  rw [insertEdge]
  split
  · assumption
  · rw [any_append]
    simp [CallEdge.sameCall]

lemma subset_foldl_insertEdge : acc ⊆ es.foldl insertEdge acc := by
  rw [foldl_insertEdge]
  exact subset_append_left _ _

lemma exists_mem_edges_ofList {es : List CallEdge} (h : e ∈ es) :
    ∃ e' ∈ (ofList es).edges.toList, e'.caller = e.caller ∧ e'.callee = e.callee := by
  obtain ⟨before, after, rfl⟩ := append_of_mem h
  obtain ⟨e', he', hsame⟩ := any_eq_true.1 (any_insertEdge (before.foldl insertEdge empty.edges.toList) e)
  refine ⟨e', ?_, CallEdge.sameCall_iff.1 hsame⟩
  rw [ofList, (edges_addAll (indexes_empty _) _).2, foldl_append, foldl_cons]
  exact subset_foldl_insertEdge _ after he'

lemma foldl_insertEdge_filter {acc : List CallEdge} (h : acc.any (·.sameCall e)) (es : List CallEdge) :
    (es.filter fun b => b.sameCall e = false).foldl insertEdge acc = es.foldl insertEdge acc := by
  rw [foldl_insertEdge, foldl_insertEdge, filter_filter]
  congr 2
  refine filter_congr fun b _ => ?_
  by_cases hb : b.sameCall e = true
  · obtain ⟨x, hx, hxe⟩ := any_eq_true.1 h
    have hxb : x.sameCall b := CallEdge.sameCall_trans hxe (CallEdge.sameCall_comm b e ▸ hb)
    rw [any_eq_true.2 ⟨x, hx, hxb⟩, Bool.not_true, Bool.false_and]
  · rw [decide_eq_true (Bool.eq_false_iff.2 hb), Bool.and_true]

lemma foldl_insertEdge_eraseDups :
    (es.eraseDupsBy CallEdge.sameCall).foldl insertEdge acc = es.foldl insertEdge acc := by
  induction hn : es.length using Nat.strongRecOn generalizing acc es with
  | ind n ih =>
    subst hn
    cases es with
    | nil => rfl
    | cons e es =>
      have hlt : (es.filter fun b => b.sameCall e = false).length < (e :: es).length :=
        Nat.lt_succ_of_le (length_filter_le ..)
      rw [eraseDupsBy_cons, foldl_cons, foldl_cons, ih _ hlt _ _ rfl, foldl_insertEdge_filter (any_insertEdge acc e)]

lemma edges_foldl_addAll (ess : List (List CallEdge)) :
    ((ess.map fun es => (ofList es).edges.toList).foldl addAll empty).edges.toList =
      ess.flatten.eraseDupsBy CallEdge.sameCall := by
  have hrun : ∀ g : CallGraph, g.Indexes CallEdge.key →
      ((ess.map fun es => (ofList es).edges.toList).foldl addAll g).edges.toList =
        ess.flatten.foldl insertEdge g.edges.toList := by
    induction ess with
    | nil => exact fun _ _ => rfl
    | cons es ess ih =>
      intro g hg
      obtain ⟨hindexes, hedges⟩ := edges_addAll hg (ofList es).edges.toList
      rw [map_cons, foldl_cons, ih _ hindexes, hedges, edges_ofList, foldl_insertEdge_eraseDups,
        flatten_cons, foldl_append]
  rw [hrun empty (indexes_empty _), ← edges_ofList, ofList, (edges_addAll (indexes_empty _) _).2]

/-! ### Caller trees -/

def IsFrameOf (e : CallEdge) (n : CallNode) : Prop :=
  n.name = e.caller ∧ n.typeName = e.callerType ∧ n.methodName = e.callerMethod ∧
    n.moduleName = e.moduleName ∧ n.location = e.location

/-- Whether the children of a frame are the callers of its method by other methods, in the order of
the edges, with their own callers below them down to a depth, where frames with callers are
marked. -/
def IsCallerTree (edges : List CallEdge) : Nat → CallNode → Prop
  | 0, n => n.children = [] ∧
      (n.truncated = true ↔ ∃ e ∈ edges, e.callee = n.name ∧ e.caller ≠ n.name)
  | depth + 1, n => n.truncated = false ∧
      List.Forall₂ (fun e c => IsFrameOf e c ∧ IsCallerTree edges depth c)
        (edges.filter fun e => e.callee = n.name ∧ e.caller ≠ n.name) n.children

lemma callers_eq_filter (edges : List CallEdge) (method : String) :
    callers edges method = edges.filter fun e => e.callee = method ∧ e.caller ≠ method := by
  refine filter_congr fun e _ => ?_
  rw [Bool.eq_iff_iff, Bool.and_eq_true, beq_iff_eq, bne_iff_ne, decide_eq_true_eq]

lemma callers_isEmpty_eq_false_iff {edges : List CallEdge} {method : String} :
    (!(callers edges method).isEmpty) = true ↔ ∃ e ∈ edges, e.callee = method ∧ e.caller ≠ method := by
  rw [callers_eq_filter, Bool.not_eq_true', isEmpty_eq_false_iff_exists_mem]
  simp only [mem_filter, decide_eq_true_eq]

lemma forall₂_callerFrames (edges : List CallEdge) (depth : Nat) (method : String) :
    List.Forall₂ (fun e c => IsFrameOf e c ∧ IsCallerTree edges depth c)
      (edges.filter fun e => e.callee = method ∧ e.caller ≠ method) (callerFrames edges (depth + 1) method) := by
  rw [← callers_eq_filter]
  induction depth generalizing method with
  | zero =>
    rw [callerFrames, forall₂_map_right_iff, forall₂_same]
    exact fun e _ => ⟨⟨rfl, rfl, rfl, rfl, rfl⟩, rfl, callers_isEmpty_eq_false_iff⟩
  | succ depth ih =>
    rw [callerFrames, forall₂_map_right_iff, forall₂_same]
    intro e _
    rw [if_neg (Nat.succ_ne_zero depth)]
    refine ⟨⟨rfl, rfl, rfl, rfl, rfl⟩, rfl, ?_⟩
    have htree := ih e.caller
    rw [callers_eq_filter] at htree
    exact htree

lemma depthLimit_pos (requested : Int) : 0 < depthLimit requested := by
  rw [depthLimit]
  split
  · decide
  · omega

end CallGraph

namespace CallNode

/-- The ways down from a frame over a number of frames below it, from left to right. -/
def descents : Nat → CallNode → List (List CallNode)
  | 0, _ => [[]]
  | k + 1, n => n.children.flatMap fun c => (c.descents k).map (c :: ·)

def foot (n : CallNode) (path : List CallNode) : CallNode := path.getLastD n

@[simp]
lemma foot_nil (n : CallNode) : n.foot [] = n := rfl

@[simp]
lemma foot_cons (n c : CallNode) (path : List CallNode) : n.foot (c :: path) = c.foot path :=
  getLastD_cons

lemma mem_descents_succ {n : CallNode} {k : Nat} {path : List CallNode} :
    path ∈ n.descents (k + 1) ↔ ∃ c ∈ n.children, ∃ rest ∈ c.descents k, c :: rest = path := by
  simp [descents]

end CallNode

namespace CallGraph

/-! ### Chains -/

/-- Whether calls lead to a method: the first calls it, and every further one calls the caller of
the one before. Calls of a method by itself lead nowhere. -/
def IsChain : String → List CallEdge → Prop
  | _, [] => True
  | method, e :: es => (e.callee = method ∧ e.caller ≠ method) ∧ IsChain e.caller es

instance decidableIsChain : ∀ (method : String) (es : List CallEdge), Decidable (IsChain method es)
  | _, [] => .isTrue trivial
  | method, e :: es =>
    have := decidableIsChain e.caller es
    inferInstanceAs (Decidable ((e.callee = method ∧ e.caller ≠ method) ∧ IsChain e.caller es))

def sequences (edges : List CallEdge) : Nat → List (List CallEdge)
  | 0 => [[]]
  | k + 1 => edges.flatMap fun e => (sequences edges k).map (e :: ·)

/-- The chains of a number of calls that lead to a method, in the order of their sequences. -/
def chains (edges : List CallEdge) (method : String) (k : Nat) : List (List CallEdge) :=
  (sequences edges k).filter (IsChain method ·)

variable {edges : List CallEdge} {method : String} {k limit : Nat} {n : CallNode}

lemma chains_zero (edges : List CallEdge) (method : String) : chains edges method 0 = [[]] := by
  simp [chains, sequences, IsChain]

lemma chains_succ (edges : List CallEdge) (method : String) (k : Nat) : chains edges method (k + 1) =
      (edges.filter fun e => e.callee = method ∧ e.caller ≠ method).flatMap fun e =>
        (chains edges e.caller k).map (e :: ·) := by
  have hone (e : CallEdge) : ((sequences edges k).map (e :: ·)).filter (IsChain method ·) =
      if e.callee = method ∧ e.caller ≠ method then (chains edges e.caller k).map (e :: ·) else [] := by
    rw [filter_map]
    split
    · rename_i h
      refine congrArg (List.map _) (filter_congr fun es _ => ?_)
      simp [IsChain, h]
    · rename_i h
      rw [map_eq_nil_iff, filter_eq_nil_iff]
      intro es _
      simp [IsChain, h]
  have hall (es : List CallEdge) : (es.flatMap fun e => ((sequences edges k).map (e :: ·)).filter (IsChain method ·)) =
      (es.filter fun e => e.callee = method ∧ e.caller ≠ method).flatMap fun e =>
        (chains edges e.caller k).map (e :: ·) := by
    induction es with
    | nil => rfl
    | cons e es ih =>
      rw [flatMap_cons, ih, hone]
      by_cases h : e.callee = method ∧ e.caller ≠ method <;> simp [h]
  rw [chains, sequences, filter_flatMap, hall]

/-! ### Chains and ways down -/

/-- The ways down a caller tree are the chains of calls: each frame stands for the caller of its
call. -/
lemma IsCallerTree.frames (h : IsCallerTree edges limit n) (hk : k ≤ limit) :
    List.Forall₂ (List.Forall₂ IsFrameOf) (chains edges n.name k) (n.descents k) := by
  induction k generalizing limit n with
  | zero =>
    rw [chains_zero]
    exact .cons .nil .nil
  | succ k ih =>
    obtain ⟨limit, rfl⟩ := Nat.exists_eq_add_one_of_ne_zero (Nat.ne_zero_of_lt hk)
    obtain ⟨-, hchildren⟩ := h
    rw [chains_succ, CallNode.descents]
    refine rel_flatMap hchildren ?_
    rintro e c ⟨hframe, htree⟩
    have hrest := ih htree (Nat.le_of_succ_le_succ hk)
    rw [hframe.1] at hrest
    exact rel_map (fun _ _ hpath => .cons hframe hpath) hrest

lemma IsCallerTree.of_mem_children (h : IsCallerTree edges (limit + 1) n) {c : CallNode} (hc : c ∈ n.children) :
    IsCallerTree edges limit c := by
  have htrees : List.Forall₂ (fun c _ => IsCallerTree edges limit c ∧ True) n.children _ :=
    (h.2.imp fun _ _ hchild => ⟨hchild.2, trivial⟩).flip
  exact ((forall₂_and_left _ _).1 htrees).1 c hc

lemma IsCallerTree.truncated_foot_iff (h : IsCallerTree edges limit n) (hk : k ≤ limit) {path : List CallNode}
    (hpath : path ∈ n.descents k) :
    (n.foot path).truncated = true ↔
      k = limit ∧ ∃ e ∈ edges, e.callee = (n.foot path).name ∧ e.caller ≠ (n.foot path).name := by
  induction k generalizing limit n path with
  | zero =>
    obtain rfl := mem_singleton.1 hpath
    cases limit with
    | zero => simpa using h.2
    | succ limit => simp [h.1]
  | succ k ih =>
    obtain ⟨limit, rfl⟩ := Nat.exists_eq_add_one_of_ne_zero (Nat.ne_zero_of_lt hk)
    obtain ⟨c, hc, rest, hrest, rfl⟩ := CallNode.mem_descents_succ.1 hpath
    rw [CallNode.foot_cons, ih (h.of_mem_children hc) (Nat.le_of_succ_le_succ hk) hrest, Nat.add_right_cancel_iff]

lemma IsCallerTree.descents_eq_nil (h : IsCallerTree edges limit n) (hk : limit < k) : n.descents k = [] := by
  obtain ⟨k, rfl⟩ := Nat.exists_eq_add_one_of_ne_zero (Nat.ne_zero_of_lt hk)
  rw [CallNode.descents, flatMap_eq_nil_iff]
  intro c hc
  induction limit generalizing k n c with
  | zero => simp [h.1] at hc
  | succ limit ih =>
    obtain ⟨k, rfl⟩ := Nat.exists_eq_add_one_of_ne_zero (Nat.ne_zero_of_lt (Nat.lt_of_succ_lt_succ hk))
    have hbelow := ih (h.of_mem_children hc) k (Nat.lt_of_succ_lt_succ hk)
    rw [CallNode.descents, flatMap_eq_nil_iff.2 hbelow, map_nil]

/-! ### Chains of names -/

lemma pairwise_insertEdge {es : List CallEdge} (h : es.Pairwise fun a b => a.sameCall b = false) (e : CallEdge) :
    (insertEdge es e).Pairwise fun a b => a.sameCall b = false := by
  rw [insertEdge]
  split
  · exact h
  · rename_i hnew
    rw [pairwise_append]
    refine ⟨h, pairwise_singleton _ _, fun a ha b hb => ?_⟩
    rw [mem_singleton.1 hb]
    exact Bool.eq_false_iff.2 fun hsame => hnew (any_eq_true.2 ⟨a, ha, hsame⟩)

lemma pairwise_edges_ofList (es : List CallEdge) :
    (ofList es).edges.toList.Pairwise fun a b => a.sameCall b = false := by
  rw [ofList, (edges_addAll (indexes_empty _) es).2]
  exact foldlRecOn es insertEdge List.Pairwise.nil fun _ h e _ => pairwise_insertEdge h e

/-- No two chains to a method have the same names along them, if no pair of methods is recorded
twice. -/
lemma nodup_chains (h : edges.Pairwise fun a b => a.sameCall b = false) (method : String) (k : Nat) :
    ((chains edges method k).map (·.map CallEdge.caller)).Nodup := by
  induction k generalizing method with
  | zero => simp [chains_zero]
  | succ k ih =>
    rw [chains_succ, map_flatMap, nodup_flatMap]
    constructor
    · intro e _
      rw [map_map]
      have hcons := (ih e.caller).map (cons_injective (a := e.caller))
      rwa [map_map] at hcons
    · -- the first names tell chains with different first calls apart
      have hcallers : (edges.filter fun e => e.callee = method ∧ e.caller ≠ method).Pairwise
          fun a b => a.caller ≠ b.caller := by
        refine (List.Pairwise.filter _ h).imp_of_mem fun {a b} ha hb hab hcaller => ?_
        have hcallee : a.callee = b.callee := by
          simp only [mem_filter, decide_eq_true_eq] at ha hb
          rw [ha.2.1, hb.2.1]
        exact Bool.eq_false_iff.1 hab (CallEdge.sameCall_iff.2 ⟨hcaller, hcallee⟩)
      refine hcallers.imp fun {a b} hne names ha hb => hne ?_
      obtain ⟨-, ⟨p, -, rfl⟩, rfl⟩ : ∃ q, (∃ p ∈ chains edges a.caller k, a :: p = q) ∧
          q.map CallEdge.caller = names := by
        simpa using ha
      obtain ⟨-, ⟨q, -, rfl⟩, hq⟩ : ∃ q, (∃ p ∈ chains edges b.caller k, b :: p = q) ∧
          q.map CallEdge.caller = (a :: p).map CallEdge.caller := by
        simpa using hb
      exact (List.cons.inj hq).1.symm

/-! ### Caller trees of methods and of issues -/

/-- Whether a tree shows the chains of calls that lead to a method: its frames at every level down
to a limit are the ends of the chains of that many calls, from left to right and below the frames of
the chains without their last calls. A frame is marked exactly at the limit and if something calls
its method. -/
structure ShowsChains (edges : List CallEdge) (method : String) (limit : Nat) (root : CallNode) : Prop where
  name : root.name = method
  frames : ∀ k ≤ limit, List.Forall₂ (List.Forall₂ IsFrameOf) (chains edges method k) (root.descents k)
  truncated_iff : ∀ k ≤ limit, ∀ path ∈ root.descents k, (root.foot path).truncated = true ↔
    k = limit ∧ ∃ e ∈ edges, e.callee = (root.foot path).name ∧ e.caller ≠ (root.foot path).name
  bounded : ∀ k, limit < k → root.descents k = []

lemma IsCallerTree.showsChains (h : IsCallerTree edges limit n) : ShowsChains edges n.name limit n where
  name := rfl
  frames _ hk := h.frames hk
  truncated_iff _ hk _ hpath := h.truncated_foot_iff hk hpath
  bounded _ hk := h.descents_eq_nil hk

lemma isCallerTree_hierarchy (g : CallGraph) (method : String) (depth : Int) :
    IsCallerTree g.edges.toList (depthLimit depth) (g.hierarchy method depth) := by
  obtain ⟨limit, hlimit⟩ := Nat.exists_eq_add_one_of_ne_zero (Nat.ne_of_gt (depthLimit_pos depth))
  rw [hierarchy, expand, hlimit]
  exact ⟨rfl, forall₂_callerFrames g.edges.toList limit method⟩

lemma exists_child_iff (g : CallGraph) (method caller : String) (depth : Int) :
    (∃ c ∈ (g.hierarchy method depth).children, c.name = caller) ↔
      (∃ e ∈ g.edges.toList, e.caller = caller ∧ e.callee = method) ∧ caller ≠ method := by
  obtain ⟨limit, hlimit⟩ := Nat.exists_eq_add_one_of_ne_zero (Nat.ne_of_gt (depthLimit_pos depth))
  have htree := isCallerTree_hierarchy g method depth
  rw [hlimit] at htree
  have hnames : (g.edges.toList.filter fun e => e.callee = method ∧ e.caller ≠ method).map CallEdge.caller =
      (g.hierarchy method depth).children.map CallNode.name := by
    rw [← forall₂_eq_eq_eq, forall₂_map_left_iff, forall₂_map_right_iff]
    exact htree.2.imp fun e c h => h.1.1.symm
  rw [← mem_map, ← hnames, mem_map]
  simp only [mem_filter, decide_eq_true_eq]
  constructor
  · rintro ⟨e, ⟨he, hcallee, hne⟩, rfl⟩
    exact ⟨⟨e, he, rfl, hcallee⟩, hne⟩
  · rintro ⟨⟨e, he, rfl, hcallee⟩, hne⟩
    exact ⟨e, ⟨he, hcallee, hne⟩, rfl⟩

/-- The caller tree of a method shows exactly the chains of recorded calls that lead to it, down to
the limit that is asked for, or ten where none is; no two of them go over the same methods. The call
site of an issue that nothing was found for yet is given the callers of its method. -/
theorem showsChains_hierarchy (es : List CallEdge) (depth : Int) :
    let g := ofList es
    let limit := if depth ≤ 0 then 10 else depth.toNat
    (∀ method, ShowsChains g.edges.toList method limit (g.hierarchy method depth)) ∧
    (∀ method k, ((chains g.edges.toList method k).map (·.map CallEdge.caller)).Nodup) ∧
    ∀ (issues : List Issue) (i : Nat) (issue : Issue) (name typeName methodName moduleName : String)
        (location : Option Location) (truncated : Bool), issues[i]? = some issue →
      issue.dependencies = some (.mk name typeName methodName moduleName location [] truncated) →
      (issues.map (g.expandIssue depth))[i]? = some { issue with
        dependencies := some (.mk name typeName methodName moduleName location (g.hierarchy name depth).children
          truncated) } := by
  intro g limit
  refine ⟨fun method => ?_, nodup_chains (pairwise_edges_ofList es), ?_⟩
  · exact (isCallerTree_hierarchy g method depth).showsChains
  · intro issues i issue name typeName methodName moduleName location truncated hissue hroot
    rw [List.getElem?_map, hissue, Option.map_some, expandIssue, hroot, Option.map_some]
    rfl

def mutualCalls : List CallEdge :=
  [{ caller := "Load", callee := "Parse" }, { caller := "Parse", callee := "Load" },
    { caller := "Parse", callee := "Parse" }, { caller := "Main", callee := "Load" },
    { caller := "Main", callee := "Parse" }, { caller := "Load", callee := "Parse", moduleName := "Other" }]

def parseIssue : Issue :=
  { category := .code, description := "slow", dependencies := some (.mk "Parse" "T" "Parse" "M" none [] false) }

theorem showsChains_hierarchy_mutualCalls :
    ShowsChains (ofList mutualCalls).edges.toList "Parse" 2 ((ofList mutualCalls).hierarchy "Parse" 2) ∧
    (chains (ofList mutualCalls).edges.toList "Parse" 2).map (·.map CallEdge.caller) =
      [["Load", "Parse"], ["Load", "Main"]] ∧
    (((ofList mutualCalls).hierarchy "Parse" 2).descents 2).map (·.map fun n => (n.name, n.truncated)) =
      [[("Load", false), ("Parse", true)], [("Load", false), ("Main", false)]] ∧
    ([parseIssue, parseIssue].map ((ofList mutualCalls).expandIssue 2))[1]? = some { parseIssue with
      dependencies := some (.mk "Parse" "T" "Parse" "M" none ((ofList mutualCalls).hierarchy "Parse" 2).children
        false) } := by
  obtain ⟨hshows, -, hissue⟩ := showsChains_hierarchy mutualCalls 2
  refine ⟨hshows "Parse", ?_, ?_, hissue [parseIssue, parseIssue] 1 parseIssue _ _ _ _ _ _ rfl rfl⟩
  · rw [edges_ofList]
    decide
  · rw [hierarchy, expand, edges_ofList]
    decide

end CallGraph

end BytecodeAudit
