import Mathlib.Data.List.Permutation
import Mathlib.Data.Set.Card
import BytecodeAudit.Proofs.Ascending
import BytecodeAudit.Proofs.CallGraph.Chains

/-!
# The shape of a call graph

The shape of a graph is a matter of which methods call which (`CallStats.IsShapeOf`): it counts
methods and pairs, and its cycles are the classes of methods that reach one another, by first name.
So the calls determine it (`CallStats.IsShapeOf.unique`). `mem_reach_iff` says what it finds, with
the set and the pending names left free; the step, `exists_leadsWithin_iff`, is that a name which
was taken out is never needed again.
-/

namespace BytecodeAudit

open List

namespace CallGraph

variable {names : List String}

/-! ### Search -/

section Search

variable {next : String → List String} {names pending : List String} {n x : String}

def LeadsWithin (next : String → List String) (names : List String) : String → String → Prop :=
  Relation.ReflTransGen fun a b => b ∈ next a ∧ b ∈ names

lemma LeadsWithin.of_erase {a : String} (h : LeadsWithin next (names.erase n) a x) : LeadsWithin next names a x :=
  Relation.ReflTransGen.mono (fun _ _ hab => ⟨hab.1, mem_of_mem_erase hab.2⟩) _ _ h

/-- What is behind the pending names is a name that is taken out, and what is behind the names next
to it and the pending ones without going over it. -/
lemma exists_leadsWithin_iff (hnames : names.Nodup) (hn : n ∈ names) (hpending : n ∈ pending) :
    (∃ p ∈ pending, p ∈ names ∧ LeadsWithin next names p x) ↔
      x = n ∨ ∃ p ∈ next n ++ pending, p ∈ names.erase n ∧ LeadsWithin next (names.erase n) p x := by
  constructor
  · rintro ⟨p, hp, hpn, hpath⟩
    -- along the path: its end is the name itself, or it is found without the name
    induction hpath with
    | refl =>
      by_cases h : p = n
      · exact .inl h
      · exact .inr ⟨p, mem_append_right _ hp, hnames.mem_erase_iff.2 ⟨h, hpn⟩, .refl⟩
    | @tail b c _ hbc ih =>
      by_cases h : c = n
      · exact .inl h
      have hc : c ∈ names.erase n := hnames.mem_erase_iff.2 ⟨h, hbc.2⟩
      rcases ih with rfl | ⟨q, hq, hqn, hqb⟩
      · exact .inr ⟨c, mem_append_left _ hbc.1, hc, .refl⟩
      · exact .inr ⟨q, hq, hqn, hqb.tail ⟨hbc.1, hc⟩⟩
  · rintro (rfl | ⟨p, hp, hpn, hpath⟩)
    · exact ⟨x, hpending, hn, .refl⟩
    · have hmem := mem_of_mem_erase hpn
      rcases mem_append.1 hp with hp | hp
      · exact ⟨n, hpending, hn, .head ⟨hp, hmem⟩ hpath.of_erase⟩
      · exact ⟨p, hp, hmem, hpath.of_erase⟩

lemma mem_reach_iff (hnames : names.Nodup) :
    x ∈ reach next names pending ↔ ∃ p ∈ pending, p ∈ names ∧ LeadsWithin next names p x := by
  fun_induction reach next names pending with
  | case1 names pending hnone =>
    refine iff_of_false not_mem_nil ?_
    rintro ⟨p, hp, hpn, -⟩
    exact find?_eq_none.1 hnone p hp (contains_iff_mem.2 hpn)
  | case2 names pending n hsome ih =>
    have hn : n ∈ names := contains_iff_mem.1 (find?_some hsome)
    rw [mem_cons, ih (hnames.erase n), exists_leadsWithin_iff hnames hn (mem_of_find?_eq_some hsome)]

lemma nodup_reach (hnames : names.Nodup) : (reach next names pending).Nodup := by
  fun_induction reach next names pending with
  | case1 => exact nodup_nil
  | case2 names pending n hsome ih =>
    refine nodup_cons.2 ⟨fun hmem => ?_, ih (hnames.erase n)⟩
    obtain ⟨p, -, hpn, hpath⟩ := (mem_reach_iff (hnames.erase n)).1 hmem
    have hn : n ∈ names.erase n := by
      rcases hpath.cases_tail with rfl | ⟨b, -, hbn⟩
      · exact hpn
      · exact hbn.2
    exact (hnames.mem_erase_iff.1 hn).1 rfl

end Search

/-! ### Methods that reach one another -/

def Calls (edges : List CallEdge) (caller callee : String) : Prop :=
  ∃ e ∈ edges, e.caller = caller ∧ e.callee = callee

def MutuallyReach (calls : String → String → Prop) (a b : String) : Prop :=
  Relation.ReflTransGen calls a b ∧ Relation.ReflTransGen calls b a

/-- Whether names are those of a class of at least two methods that reach one another, in ascending
order. -/
structure IsCycle (calls : String → String → Prop) (names : List String) : Prop where
  ascending : names.Pairwise (Text.rank · < Text.rank ·)
  two_le_length : 2 ≤ names.length
  mem_iff : ∀ a ∈ names, ∀ b, b ∈ names ↔ MutuallyReach calls a b

variable {calls : String → String → Prop} {edges : List CallEdge} {a b m : String}

lemma MutuallyReach.congr_left (h : MutuallyReach calls a b) (x : String) :
    MutuallyReach calls a x ↔ MutuallyReach calls b x :=
  ⟨fun hx => ⟨h.2.trans hx.1, hx.2.trans h.1⟩, fun hx => ⟨h.1.trans hx.1, hx.2.trans h.2⟩⟩

lemma mem_methods_iff : m ∈ methods edges ↔ ∃ other, Calls edges m other ∨ Calls edges other m := by
  simp only [methods, mem_eraseDups, mem_flatMap, mem_cons, not_mem_nil, or_false, Calls]
  constructor
  · rintro ⟨e, he, rfl | rfl⟩
    · exact ⟨e.callee, .inl ⟨e, he, rfl, rfl⟩⟩
    · exact ⟨e.caller, .inr ⟨e, he, rfl, rfl⟩⟩
  · rintro ⟨other, ⟨e, he, rfl, -⟩ | ⟨e, he, -, rfl⟩⟩
    · exact ⟨e, he, .inl rfl⟩
    · exact ⟨e, he, .inr rfl⟩

lemma nodup_eraseDups (xs : List String) : xs.eraseDups.Nodup := by
  match xs with
  | [] => exact nodup_nil
  | x :: xs =>
    have hrest := nodup_eraseDups (xs.filter fun y => !y == x)
    rw [eraseDups_cons, nodup_cons]
    exact ⟨by simp [mem_eraseDups], hrest⟩
termination_by xs.length
decreasing_by exact Nat.lt_succ_of_le (length_filter_le ..)

lemma nodup_methods (edges : List CallEdge) : (methods edges).Nodup := nodup_eraseDups _

lemma mem_reachedFrom_iff (hm : m ∈ methods edges) :
    b ∈ reachedFrom edges m ↔ Relation.ReflTransGen (Calls edges) m b := by
  have hstep : (fun a b => b ∈ callees edges a ∧ b ∈ methods edges) = Calls edges := by
    funext a b
    refine propext ⟨fun h => ?_, fun h => ⟨?_, mem_methods_iff.2 ⟨a, .inr h⟩⟩⟩
    · simpa [callees, Calls, and_assoc] using h.1
    · simpa [callees, Calls, and_assoc] using h
  simp [reachedFrom, mem_reach_iff (nodup_methods edges), LeadsWithin, hstep, hm]

lemma mem_reaching_iff (hm : m ∈ methods edges) : b ∈ reaching edges m ↔ Relation.ReflTransGen (Calls edges) b m := by
  have hstep : (fun a b => b ∈ callerNames edges a ∧ b ∈ methods edges) = Function.swap (Calls edges) := by
    funext a b
    refine propext ⟨fun h => ?_, fun h => ⟨?_, mem_methods_iff.2 ⟨a, .inl h⟩⟩⟩
    · simpa [callerNames, Calls, Function.swap, and_assoc, and_comm, and_left_comm] using h.1
    · simpa [callerNames, Calls, Function.swap, and_assoc, and_comm, and_left_comm] using h
  simp [reaching, mem_reach_iff (nodup_methods edges), LeadsWithin, hstep, hm, Relation.reflTransGen_swap]

lemma mem_cycleOf_iff (hm : m ∈ methods edges) : b ∈ cycleOf edges m ↔ MutuallyReach (Calls edges) m b := by
  rw [cycleOf, mem_mergeSort, mem_filter, contains_iff_mem, mem_reachedFrom_iff hm, mem_reaching_iff hm, MutuallyReach]

lemma ascending_cycleOf (edges : List CallEdge) (m : String) :
    (cycleOf edges m).Pairwise (Text.rank · < Text.rank ·) :=
  Text.pairwise_sorted ((nodup_reach (nodup_methods edges)).filter _)

lemma mem_cycles : names ∈ cycles edges ↔
    ∃ m ∈ methods edges, names = cycleOf edges m ∧ 2 ≤ names.length ∧ names.head? = some m := by
  simp only [cycles, mem_filterMap, mem_mergeSort, Option.ite_none_right_eq_some, Bool.and_eq_true,
    decide_eq_true_eq, beq_iff_eq, Option.some.injEq]
  constructor
  · rintro ⟨m, hm, ⟨hlength, hhead⟩, rfl⟩
    exact ⟨m, hm, rfl, hlength, hhead⟩
  · rintro ⟨m, hm, rfl, hlength, hhead⟩
    exact ⟨m, hm, ⟨hlength, hhead⟩, rfl⟩

lemma IsCycle.mem_methods (h : IsCycle (Calls edges) names) (hm : m ∈ names) : m ∈ methods edges := by
  obtain ⟨other, hother, hne⟩ : ∃ other ∈ names, other ≠ m := by
    by_contra hall
    have hsub : names ⊆ [m] := fun x hx => mem_singleton.2 (by_contra fun hne => hall ⟨x, hx, hne⟩)
    have hlength := ((Text.nodup_of_ascending h.ascending).subperm hsub).length_le
    exact Nat.not_succ_le_self 1 (h.two_le_length.trans hlength)
  rcases ((h.mem_iff m hm other).1 hother).1.cases_head with rfl | ⟨c, hc, -⟩
  · exact absurd rfl hne
  · exact mem_methods_iff.2 ⟨c, .inl hc⟩

lemma mem_cycles_iff : names ∈ cycles edges ↔ IsCycle (Calls edges) names := by
  rw [mem_cycles]
  constructor
  · rintro ⟨m, hm, rfl, hlength, -⟩
    refine ⟨ascending_cycleOf edges m, hlength, fun a ha b => ?_⟩
    rw [mem_cycleOf_iff hm] at ha ⊢
    exact ha.congr_left b
  · intro h
    obtain ⟨m, names, rfl⟩ := exists_cons_of_length_pos (Nat.zero_lt_of_lt h.two_le_length)
    have hm := h.mem_methods mem_cons_self
    refine ⟨m, hm, Text.eq_of_ascending h.ascending (ascending_cycleOf edges m) fun x => ?_, h.two_le_length, rfl⟩
    rw [mem_cycleOf_iff hm, h.mem_iff m mem_cons_self]

/-- Whether the first name of a list is less than that of another one. -/
def StartsBefore (names names' : List String) : Prop :=
  ∀ a ∈ names.head?, ∀ b ∈ names'.head?, Text.rank a < Text.rank b

lemma startsBefore_cycles (edges : List CallEdge) : (cycles edges).Pairwise StartsBefore := by
  refine (Text.pairwise_sorted (nodup_methods edges)).filterMap _ fun a b hab names hnames names' hnames' x hx y hy => ?_
  simp only [Option.ite_none_right_eq_some, Bool.and_eq_true, beq_iff_eq, Option.some.injEq] at hnames hnames'
  obtain ⟨⟨-, hhead⟩, rfl⟩ := hnames
  obtain ⟨⟨-, hhead'⟩, rfl⟩ := hnames'
  obtain rfl := Option.some.inj (hhead.symm.trans hx)
  obtain rfl := Option.some.inj (hhead'.symm.trans hy)
  exact hab

end CallGraph

/-! ### The shape of a relation -/

open CallGraph

/-- Whether a shape is that of a relation between methods: it counts the methods, the pairs, the
methods that no other one calls and those that call themselves, and the cycles are the classes of
methods that reach one another, by first name. -/
structure CallStats.IsShapeOf (calls : String → String → Prop) (s : CallStats) : Prop where
  methods : s.methods = {m | ∃ other, calls m other ∨ calls other m}.ncard
  edges : s.edges = {p : String × String | calls p.1 p.2}.ncard
  roots : s.roots = {m | (∃ other, calls m other ∨ calls other m) ∧ ∀ caller, calls caller m → caller = m}.ncard
  selfCalls : s.selfCalls = {m | calls m m}.ncard
  mem_cycles_iff : ∀ names, names ∈ s.cycles ↔ IsCycle calls names
  startsBefore : s.cycles.Pairwise StartsBefore

variable {calls : String → String → Prop}

lemma CallGraph.IsCycle.ne_nil {names : List String} (h : IsCycle calls names) :
    names ≠ [] := ne_nil_of_length_pos (Nat.zero_lt_of_lt h.two_le_length)

lemma CallGraph.StartsBefore.asymm {names names' : List String} (h : StartsBefore names names') (hne : names ≠ [])
    (hne' : names' ≠ []) : ¬ StartsBefore names' names := by
  obtain ⟨a, _, rfl⟩ := exists_cons_of_ne_nil hne
  obtain ⟨b, _, rfl⟩ := exists_cons_of_ne_nil hne'
  exact fun h' => lt_asymm (h a rfl b rfl) (h' b rfl a rfl)

lemma CallStats.IsShapeOf.unique {s s' : CallStats} (h : s.IsShapeOf calls)
    (h' : s'.IsShapeOf calls) : s = s' := by
  have hne {s : CallStats} (h : s.IsShapeOf calls) (names : List String) (hnames : names ∈ s.cycles) : names ≠ [] :=
    ((h.mem_cycles_iff names).1 hnames).ne_nil
  have hnodup {s : CallStats} (h : s.IsShapeOf calls) : s.cycles.Nodup := by
    refine h.startsBefore.imp_of_mem fun {a b} ha hb hab heq => ?_
    subst heq
    exact hab.asymm (hne h a ha) (hne h a hb) hab
  have hcycles : s.cycles = s'.cycles := by
    refine List.Perm.eq_of_pairwise (fun a b ha hb hab hba => ?_) h.startsBefore h'.startsBefore ?_
    · exact absurd hba (hab.asymm (hne h a ha) (hne h' b hb))
    · refine (perm_ext_iff_of_nodup (hnodup h) (hnodup h')).2 fun names => ?_
      rw [h.mem_cycles_iff, h'.mem_cycles_iff]
  obtain ⟨methods, edges, roots, cycles, selfCalls⟩ := s
  obtain ⟨methods', edges', roots', cycles', selfCalls'⟩ := s'
  rw [CallStats.mk.injEq]
  exact ⟨h.methods.trans h'.methods.symm, h.edges.trans h'.edges.symm, h.roots.trans h'.roots.symm, hcycles,
    h.selfCalls.trans h'.selfCalls.symm⟩

namespace CallGraph

variable {edges : List CallEdge} {m : String}

lemma length_eq_ncard {α : Type} [DecidableEq α] {xs : List α} {s : Set α} (h : xs.Nodup)
    (hmem : ∀ x, x ∈ xs ↔ x ∈ s) : xs.length = s.ncard := by
  have hs : s = xs.toFinset := Set.ext fun x => by rw [← hmem, Finset.mem_coe, mem_toFinset]
  rw [hs, Set.ncard_coe_finset, toFinset_card_of_nodup h]

lemma no_other_caller_iff : (!edges.any fun e => e.callee == m && e.caller != m) ↔
    ∀ caller, Calls edges caller m → caller = m := by
  simp only [Bool.not_eq_true', any_eq_false, Bool.and_eq_true, beq_iff_eq, bne_iff_ne, not_and, not_not]
  constructor
  · rintro h caller ⟨e, he, rfl, hcallee⟩
    exact h e he hcallee
  · exact fun h e he hcallee => h e.caller ⟨e, he, rfl, hcallee⟩

lemma calls_self_iff : m ∈ (edges.filter fun e => e.caller == e.callee).map CallEdge.caller ↔ Calls edges m m := by
  simp only [mem_map, mem_filter, beq_iff_eq]
  constructor
  · rintro ⟨e, ⟨he, hself⟩, rfl⟩
    exact ⟨e, he, rfl, hself.symm⟩
  · rintro ⟨e, he, rfl, hself⟩
    exact ⟨e, ⟨he, hself.symm⟩, rfl⟩

lemma isShapeOf_stats {g : CallGraph} (h : g.edges.toList.Pairwise fun a b => a.sameCall b = false) :
    g.stats.IsShapeOf (Calls g.edges.toList) where
  methods := length_eq_ncard (nodup_methods _) fun _ => mem_methods_iff
  edges := by
    have hnodup : (g.edges.toList.map fun e => (e.caller, e.callee)).Nodup := by
      refine pairwise_map.2 (h.imp fun hab heq => ?_)
      exact Bool.eq_false_iff.1 hab (CallEdge.sameCall_iff.2 (Prod.mk.inj heq))
    refine (length_map _).symm.trans (length_eq_ncard hnodup fun p => ?_)
    simp only [mem_map, Prod.ext_iff, Set.mem_ofPred_eq, Calls]
  roots := by
    refine length_eq_ncard ((nodup_methods _).filter _) fun m => ?_
    rw [mem_filter, mem_methods_iff, no_other_caller_iff, Set.mem_ofPred_eq]
  selfCalls := by
    have hnodup : ((g.edges.toList.filter fun e => e.caller == e.callee).map CallEdge.caller).Nodup := by
      refine pairwise_map.2 ((h.filter _).imp_of_mem fun {a b} ha hb hab heq => ?_)
      rw [mem_filter, beq_iff_eq] at ha hb
      exact Bool.eq_false_iff.1 hab (CallEdge.sameCall_iff.2 ⟨heq, ha.2.symm.trans (heq.trans hb.2)⟩)
    exact (length_map _).symm.trans (length_eq_ncard hnodup fun m => calls_self_iff)
  mem_cycles_iff _ := CallGraph.mem_cycles_iff
  startsBefore := startsBefore_cycles _

lemma calls_ofList (es : List CallEdge) : Calls (ofList es).edges.toList = Calls es := by
  funext caller callee
  refine propext ⟨?_, ?_⟩
  · rintro ⟨e, he, hcall⟩
    rw [edges_ofList] at he
    exact ⟨e, mem_of_mem_eraseDupsBy he, hcall⟩
  · rintro ⟨e, he, rfl, rfl⟩
    exact exists_mem_edges_ofList he

/-- The shape of a graph is that of the calls that were inserted, in whatever order and however
often. -/
theorem isShapeOf_stats_ofList (es : List CallEdge) :
    (ofList es).stats.IsShapeOf (Calls es) ∧
      ∀ es', (∀ caller callee, Calls es' caller callee ↔ Calls es caller callee) →
        (ofList es').stats = (ofList es).stats := by
  have hshape (es : List CallEdge) : (ofList es).stats.IsShapeOf (Calls es) :=
    calls_ofList es ▸ isShapeOf_stats (pairwise_edges_ofList es)
  refine ⟨hshape es, fun es' hcalls => ?_⟩
  have heq : Calls es' = Calls es := funext fun caller => funext fun callee => propext (hcalls caller callee)
  exact (heq ▸ hshape es').unique (hshape es)

def twoCycles : List CallEdge :=
  [{ caller := "B", callee := "B" }, { caller := "B", callee := "C" }, { caller := "A", callee := "B" },
    { caller := "C", callee := "B" }, { caller := "E", callee := "D" }, { caller := "D", callee := "E" }]

/-- The order of insertion does not show. -/
theorem isShapeOf_stats_ofList_twoCycles :
    (ofList twoCycles).stats.IsShapeOf (Calls twoCycles) ∧
    (ofList twoCycles).stats =
      { methods := 5, edges := 6, roots := 1, cycles := [["B", "C"], ["D", "E"]], selfCalls := 1 } ∧
    (ofList (twoCycles.reverse ++ twoCycles)).stats = (ofList twoCycles).stats := by
  obtain ⟨hshape, horder⟩ := isShapeOf_stats_ofList twoCycles
  refine ⟨hshape, ?_, horder _ fun caller callee => ?_⟩
  · have hmethods : (methods (ofList twoCycles).edges.toList).mergeSort (Text.rank · ≤ Text.rank ·) =
        ["A", "B", "C", "D", "E"] := by
      rw [edges_ofList]
      exact Text.sorted_eq_of_perm (by decide +kernel) (by decide +kernel)
    have hcycle : ∀ x ∈ [("A", ["A"]), ("B", ["B", "C"]), ("C", ["B", "C"]), ("D", ["D", "E"]), ("E", ["D", "E"])],
        cycleOf (ofList twoCycles).edges.toList x.1 = x.2 := by
      intro x hx
      rw [edges_ofList, cycleOf]
      revert x
      simp only [forall_mem_cons]
      refine ⟨?_, ?_, ?_, ?_, ?_, nofun⟩ <;> exact Text.sorted_eq_of_perm (by decide +kernel) (by decide +kernel)
    simp only [forall_mem_cons] at hcycle
    obtain ⟨hA, hB, hC, hD, hE, -⟩ := hcycle
    have hcycles : cycles (ofList twoCycles).edges.toList = [["B", "C"], ["D", "E"]] := by
      simp [cycles, hmethods, hA, hB, hC, hD, hE]
    rw [stats, hcycles, edges_ofList]
    cbv
  · simp [Calls]

/-! ### Insertion and merging

The hash that indexes the edges may be shared by different calls; `addBy` and `mergeBy` leave it
open. What a graph holds depends only on the calls that went into it (`insertion_exact`). -/

/-- The hash of the text of a call. -/
def textHash (hash : String → UInt64) (e : CallEdge) : UInt64 := hash (e.caller ++ "->" ++ e.callee)

def addBy (hash : String → UInt64) (g : CallGraph) (e : CallEdge) : CallGraph × Bool := g.addUnder (textHash hash e) e

def mergeBy (hash : String → UInt64) (g other : CallGraph) : CallGraph :=
  other.edges.toList.foldl (fun g e => (addBy hash g e).1) g

/-- A call without decoration. -/
def bareCall (caller callee : String) : CallEdge := { caller, callee }

/-- A graph that came about by insertions and merges, with the calls that went into it one after
another. -/
inductive Grows (hash : String → UInt64) : CallGraph → List CallEdge → Prop
  | empty : Grows hash empty []
  | add {g : CallGraph} {calls : List CallEdge} (h : Grows hash g calls) (e : CallEdge) :
    Grows hash (addBy hash g e).1 (calls ++ [e])
  | record {g : CallGraph} {calls : List CallEdge} (h : Grows hash g calls) (caller callee : String) :
    Grows hash (addBy hash g (bareCall caller callee)).1 (calls ++ [bareCall caller callee])
  | merge {g other : CallGraph} {calls more : List CallEdge} (h : Grows hash g calls) (hother : Grows hash other more) :
    Grows hash (mergeBy hash g other) (calls ++ more)

variable {hash : String → UInt64} {g other third : CallGraph} {calls more further : List CallEdge}

lemma textHash_eq_of_sameCall (hash : String → UInt64) (a b : CallEdge) (h : a.sameCall b) :
    textHash hash a = textHash hash b := by
  obtain ⟨hcaller, hcallee⟩ := CallEdge.sameCall_iff.1 h
  rw [textHash, textHash, hcaller, hcallee]

lemma foldl_insertEdge_nil (calls : List CallEdge) :
    calls.foldl insertEdge [] = calls.eraseDupsBy CallEdge.sameCall := by
  rw [foldl_insertEdge]
  simp

/-- The index is in order, and the edges are the calls with later repetitions left out. -/
lemma Grows.indexes_and_edges (h : Grows hash g calls) :
    g.Indexes (textHash hash) ∧ g.edges.toList = calls.foldl insertEdge [] := by
  have hhash := textHash_eq_of_sameCall hash
  have hadd {g : CallGraph} {calls : List CallEdge} (e : CallEdge)
      (ih : g.Indexes (textHash hash) ∧ g.edges.toList = calls.foldl insertEdge []) :
      (addBy hash g e).1.Indexes (textHash hash) ∧
        (addBy hash g e).1.edges.toList = (calls ++ [e]).foldl insertEdge [] := by
    refine ⟨ih.1.addUnder e, ?_⟩
    rw [addBy, edges_addUnder ih.1 hhash, foldl_append, ih.2]
    rfl
  induction h with
  | empty => exact ⟨indexes_empty _, rfl⟩
  | add _ e ih => exact hadd e ih
  | record _ caller callee ih => exact hadd _ ih
  | @merge _ _ _ more _ _ ih ihother =>
    obtain ⟨hindexes, hedges⟩ := edges_foldl_addUnder hhash ih.1 _
    refine ⟨hindexes, hedges.trans ?_⟩
    rw [ih.2, ihother.2, foldl_append, foldl_insertEdge_nil more, foldl_insertEdge_eraseDups]

lemma Grows.edges_eq (h : Grows hash g calls) : g.edges.toList = calls.eraseDupsBy CallEdge.sameCall := by
  rw [h.indexes_and_edges.2, foldl_insertEdge_nil]

/-- Between two methods, the call that was inserted first is there. -/
lemma find?_foldl_insertEdge (calls acc : List CallEdge) (e : CallEdge) :
    (calls.foldl insertEdge acc).find? (·.sameCall e) = (acc ++ calls).find? (·.sameCall e) := by
  induction calls generalizing acc with
  | nil => rw [foldl_nil, append_nil]
  | cons x calls ih =>
    rw [foldl_cons, ih, insertEdge]
    split
    case isTrue h =>
      obtain ⟨y, hy, hyx⟩ := any_eq_true.1 h
      rw [find?_append, find?_append, find?_cons]
      cases hx : x.sameCall e with
      | false => rfl
      | true =>
        have hsome : (acc.find? (·.sameCall e)).isSome := find?_isSome.2 ⟨y, hy, CallEdge.sameCall_trans hyx hx⟩
        rw [Option.or_of_isSome hsome, Option.or_of_isSome hsome]
    case isFalse => rw [append_assoc, singleton_append]

section

variable (h : Grows hash g calls)
include h

lemma Grows.find?_edges (e : CallEdge) : g.edges.toList.find? (·.sameCall e) = calls.find? (·.sameCall e) := by
  rw [h.indexes_and_edges.2, find?_foldl_insertEdge, nil_append]

lemma Grows.any_edges (e : CallEdge) : g.edges.toList.any (·.sameCall e) = calls.any (·.sameCall e) := by
  rw [Bool.eq_iff_iff, any_eq_true, any_eq_true, ← find?_isSome, h.find?_edges, find?_isSome]

lemma Grows.addBy_snd (e : CallEdge) : (addBy hash g e).2 = !calls.any (·.sameCall e) := by
  rw [← h.any_edges, addBy, addUnder, holdsUnder_iff h.indexes_and_edges.1 (textHash_eq_of_sameCall hash)]
  split
  case isTrue hany => rw [hany]; rfl
  case isFalse hany => rw [Bool.eq_false_iff.2 hany]; rfl

lemma Grows.pairwise_edges : g.edges.toList.Pairwise fun a b => a.sameCall b = false := by
  rw [h.indexes_and_edges.2]
  exact foldlRecOn calls insertEdge List.Pairwise.nil fun _ h e _ => pairwise_insertEdge h e

lemma Grows.edges_congr (hother : Grows hash other calls) : g.edges = other.edges :=
  Array.toList_inj.1 (h.edges_eq.trans hother.edges_eq.symm)

/-- Calls that are there already change nothing. -/
lemma Grows.edges_mergeBy_of_subset (hother : Grows hash other more) (hsub : more ⊆ calls) :
    (mergeBy hash g other).edges = g.edges := by
  refine Array.toList_inj.1 ?_
  have hnil : (more.filter fun e => !g.edges.toList.any (·.sameCall e)) = [] := by
    refine filter_eq_nil_iff.2 fun e he => ?_
    have hany : calls.any (·.sameCall e) := any_eq_true.2 ⟨e, hsub he, CallEdge.sameCall_iff.2 ⟨rfl, rfl⟩⟩
    rw [h.any_edges, hany]
    exact Bool.false_ne_true
  rw [(h.merge hother).indexes_and_edges.2, foldl_append, ← h.indexes_and_edges.2, foldl_insertEdge, hnil]
  simp

end

/-- Whatever the hash of texts is, a graph holds each pair of methods once, as it was first inserted
and in that order; an insertion tells whether the pair is new, and the index has just the positions
of the edges with each hash. Merging is idempotent and associative. -/
theorem insertion_exact :
    (add = addBy (Digest.XxHash.hash <| Text.toBytes ·) ∧ merge = mergeBy (Digest.XxHash.hash <| Text.toBytes ·)) ∧
    ∀ {hash : String → UInt64} {g : CallGraph} {calls : List CallEdge}, Grows hash g calls →
      g.edges.toList = calls.eraseDupsBy CallEdge.sameCall ∧
      (g.edges.toList.Pairwise fun a b => ¬(a.caller = b.caller ∧ a.callee = b.callee)) ∧
      (∀ e, g.edges.toList.find? (·.sameCall e) = calls.find? (·.sameCall e)) ∧
      (∀ e, (addBy hash g e).2 = true ↔ ∀ call ∈ calls, ¬(call.caller = e.caller ∧ call.callee = e.callee)) ∧
      (∀ h, g.index.getD h [] = (range g.edges.size).filter fun i => g.edges[i]?.any (textHash hash · == h)) ∧
      (mergeBy hash g g).edges = g.edges ∧
      ∀ {other : CallGraph} {more : List CallEdge}, Grows hash other more →
        (mergeBy hash (mergeBy hash g other) other).edges = (mergeBy hash g other).edges ∧
        ∀ {third : CallGraph} {further : List CallEdge}, Grows hash third further →
          (mergeBy hash (mergeBy hash g other) third).edges = (mergeBy hash g (mergeBy hash other third)).edges := by
  refine ⟨⟨rfl, rfl⟩, fun {hash g calls} h => ?_⟩
  refine ⟨h.edges_eq, h.pairwise_edges.imp fun hne hsame => ?_, h.find?_edges, fun e => ?_, h.indexes_and_edges.1,
    h.edges_mergeBy_of_subset h (Subset.refl _), fun {other more} hother => ⟨?_, fun {third further} hthird => ?_⟩⟩
  · exact Bool.eq_false_iff.1 hne (CallEdge.sameCall_iff.2 hsame)
  · rw [h.addBy_snd, Bool.not_eq_true', any_eq_false]
    simp only [CallEdge.sameCall_iff]
  · exact (h.merge hother).edges_mergeBy_of_subset hother (subset_append_right _ _)
  · have hleft := (h.merge hother).merge hthird
    rw [append_assoc] at hleft
    exact hleft.edges_congr (h.merge (hother.merge hthird))

theorem insertion_exact_one_text :
    let g := (addBy (fun _ => 0) (addBy (fun _ => 0) empty (bareCall "a->b" "c")).1 (bareCall "a" "b->c")).1
    Grows (fun _ => 0) g [bareCall "a->b" "c", bareCall "a" "b->c"] ∧
      g.edges.toList = [bareCall "a->b" "c", bareCall "a" "b->c"] ∧
      (addBy (fun _ => 0) g (bareCall "a" "b->c")).2 = false := by
  intro g
  have hgrows : Grows (fun _ => 0) g [bareCall "a->b" "c", bareCall "a" "b->c"] :=
    (Grows.empty.record "a->b" "c").record "a" "b->c"
  obtain ⟨hedges, -, -, hanswer, -⟩ := insertion_exact.2 hgrows
  refine ⟨hgrows, hedges.trans (by decide), Bool.eq_false_iff.2 fun hnew => ?_⟩
  exact (hanswer _).1 hnew (bareCall "a" "b->c") (by decide) ⟨rfl, rfl⟩

end CallGraph

end BytecodeAudit
