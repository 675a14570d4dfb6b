import Mathlib.Data.List.Pairwise
import Mathlib.Logic.Relation
import BytecodeAudit.Proofs.Auditor.Parallel

/-!
# Auditing a report again

An audit over a report replaces what the selected analyzers found before by what they find now.
First their categories are cleared: where each run has all or none of its categories among these,
the runs with none are left (`runs_foldl_clear`).

Where the categories of analyzers are apart, the old runs of the selected ones go as a whole
(`isWhole_of_isOf`), and what one analyzer adds is found again among all that is added, in whatever
order they take turns (`Report.isReplaced_of_gathers`).
-/

namespace BytecodeAudit

open List

namespace ModuleRun

def isAbout (cs : List Category) (run : ModuleRun) : Bool := run.analyzed.any cs.contains

lemma isAbout_eq_true_iff {cs : List Category} {run : ModuleRun} :
    run.isAbout cs = true ↔ ∃ c ∈ run.analyzed, c ∈ cs := by
  simp [isAbout]

lemma isAbout_eq_false_iff {cs : List Category} {run : ModuleRun} :
    run.isAbout cs = false ↔ ∀ c ∈ run.analyzed, c ∉ cs := by
  simp [isAbout]

/-- Whether a run is not cut apart by some categories: it has a category, and all or none of its
categories are among them. -/
structure IsWhole (cs : List Category) (run : ModuleRun) : Prop where
  ne_nil : run.analyzed ≠ []
  all_or_none : (∀ c ∈ run.analyzed, c ∈ cs) ∨ ∀ c ∈ run.analyzed, c ∉ cs

end ModuleRun

namespace Report

variable {cs : List Category} {run : ModuleRun} {c : Category}

lemma analyzed_withoutCategory (c : Category) (run : ModuleRun) :
    (withoutCategory c run).analyzed = run.analyzed.filter (· != c) := by
  cases h : run.categories <;> simp [withoutCategory, ModuleRun.analyzed, h]

lemma withoutCategory_of_notMem (h : c ∉ run.analyzed) : withoutCategory c run = run := by
  rcases run with ⟨name, _ | cs, start, finish, outcome, error⟩
  · rfl
  · have hcs : cs.filter (· != c) = cs := by
      rw [filter_eq_self]
      intro c' hc'
      have hne : c' ≠ c := fun heq => h (heq ▸ hc')
      simpa using hne
    simp [withoutCategory, hcs]

lemma issues_foldl_clear (cs : List Category) (r : Report) :
    (cs.foldl clear r).issues = r.issues.filter fun i => !cs.contains i.category := by
  induction cs generalizing r with
  | nil => exact (filter_eq_self.2 fun _ _ => rfl).symm
  | cons c cs ih =>
    rw [foldl_cons, ih, clear, filter_filter]
    refine filter_congr fun i _ => ?_
    rw [contains_cons, Bool.not_or, Bool.and_comm]
    rfl

lemma isWhole_withoutCategory (h : run.IsWhole (c :: cs)) (hne : (withoutCategory c run).analyzed ≠ []) :
    (withoutCategory c run).IsWhole cs := by
  refine ⟨hne, ?_⟩
  simp only [analyzed_withoutCategory, mem_filter, bne_iff_ne, and_imp]
  rcases h.all_or_none with hall | hnone
  · exact .inl fun c' hc' hc => (mem_cons.1 (hall c' hc')).resolve_left hc
  · exact .inr fun c' hc' _ hmem => hnone c' hc' (mem_cons_of_mem c hmem)

lemma isLeft_withoutCategory (h : run.IsWhole (c :: cs)) :
    (!(withoutCategory c run).isAbout cs && !(withoutCategory c run).analyzed.isEmpty) = !run.isAbout (c :: cs) := by
  rcases h.all_or_none with hall | hnone
  · -- with all of its categories cleared, the run has lost them or still has one of the others
    have habout : run.isAbout (c :: cs) := by
      obtain ⟨c', hc'⟩ := exists_mem_of_ne_nil _ h.ne_nil
      exact ModuleRun.isAbout_eq_true_iff.2 ⟨c', hc', hall c' hc'⟩
    rw [habout, Bool.not_true, Bool.and_eq_false_imp]
    intro hnot
    rw [Bool.not_eq_true', ModuleRun.isAbout_eq_false_iff] at hnot
    rw [Bool.not_eq_false', List.isEmpty_iff, eq_nil_iff_forall_not_mem]
    intro c' hc'
    refine hnot c' hc' ?_
    rw [analyzed_withoutCategory, mem_filter, bne_iff_ne] at hc'
    exact (mem_cons.1 (hall c' hc'.1)).resolve_left hc'.2
  · have hsame : withoutCategory c run = run := withoutCategory_of_notMem fun hc => hnone c hc mem_cons_self
    have habout : run.isAbout (c :: cs) = false := ModuleRun.isAbout_eq_false_iff.2 hnone
    have habout' : run.isAbout cs = false :=
      ModuleRun.isAbout_eq_false_iff.2 fun c' hc' hmem => hnone c' hc' (mem_cons_of_mem c hmem)
    have hne : run.analyzed.isEmpty = false := isEmpty_eq_false_iff.2 h.ne_nil
    rw [hsame, habout, habout', hne]
    rfl

lemma runs_foldl_clear {r : Report} (h : ∀ run ∈ r.runs, run.IsWhole cs) :
    (cs.foldl clear r).runs = r.runs.filter fun run => !run.isAbout cs := by
  induction cs generalizing r with
  | nil =>
    rw [foldl_nil, filter_eq_self.2]
    intro run _
    rw [ModuleRun.isAbout_eq_false_iff.2 fun c _ => not_mem_nil]
    rfl
  | cons c cs ih =>
    have hleft : ∀ run ∈ (r.clear c).runs, run.IsWhole cs := by
      intro run hrun
      obtain ⟨hmem, hne⟩ := mem_filter.1 hrun
      obtain ⟨old, hold, rfl⟩ := mem_map.1 hmem
      exact isWhole_withoutCategory (h old hold) (by simpa using hne)
    have hkept : ((r.runs.map (withoutCategory c)).filter fun run => !run.isAbout cs && !run.analyzed.isEmpty) =
        (r.runs.filter fun run => !run.isAbout (c :: cs)).map (withoutCategory c) := by
      rw [filter_map]
      exact congrArg _ (filter_congr fun run hrun => isLeft_withoutCategory (h run hrun))
    have hsame : ∀ run ∈ r.runs.filter fun run => !run.isAbout (c :: cs), withoutCategory c run = run := by
      intro run hrun
      have hnot : run.isAbout (c :: cs) = false := by simpa using (mem_filter.1 hrun).2
      exact withoutCategory_of_notMem fun hc => ModuleRun.isAbout_eq_false_iff.1 hnot c hc mem_cons_self
    rw [foldl_cons, ih hleft, clear, filter_filter, hkept, map_congr_left hsame, map_id']

lemma foldl_clear_eq (cs : List Category) (r : Report) :
    cs.foldl clear r = { r with issues := (cs.foldl clear r).issues, runs := (cs.foldl clear r).runs } := by
  induction cs generalizing r with
  | nil => rfl
  | cons c cs ih =>
    rw [foldl_cons]
    exact ih (r.clear c)

end Report

namespace Analyzer

/-- Whether analyzers are told apart by their categories: each has one, and no two have the same
one. -/
structure AreApart (xs : List Analyzer) : Prop where
  ne_nil : ∀ x ∈ xs, x.categories ≠ []
  pairwise : xs.Pairwise fun x y => x.categories.Disjoint y.categories

lemma areApart_builtin : AreApart builtin := by
  constructor
  · simp [builtin, code, assembly, settings]
  · have hne : Category.code ≠ Category.assembly ∧ Category.code ≠ Category.settings ∧
        Category.assembly ≠ Category.settings := by decide
    simpa [builtin, code, assembly, settings, and_assoc] using hne

lemma AreApart.sublist {xs ys : List Analyzer} (h : AreApart ys) (hsub : xs.Sublist ys) : AreApart xs :=
  ⟨fun x hx => h.ne_nil x (hsub.subset hx), h.pairwise.sublist hsub⟩

lemma AreApart.disjoint {xs : List Analyzer} (h : AreApart xs) {x y : Analyzer} (hx : x ∈ xs) (hy : y ∈ xs)
    (hne : x ≠ y) : x.categories.Disjoint y.categories := by
  have : Std.Symm fun x y : Analyzer => x.categories.Disjoint y.categories := ⟨fun _ _ h _ hy hx => h hx hy⟩
  exact h.pairwise.forall hx hy hne

end Analyzer

/-- Whether a run is one of an analyzer: it is about some of its categories and about no others. -/
structure ModuleRun.IsOf (x : Analyzer) (run : ModuleRun) : Prop where
  ne_nil : run.analyzed ≠ []
  subset : run.analyzed ⊆ x.categories

namespace Auditor

lemma isWhole_of_isOf {a : Auditor} (h : Analyzer.AreApart a.analyzers) {x : Analyzer} (hx : x ∈ a.analyzers)
    {run : ModuleRun} (hrun : run.IsOf x) (cs : List Category) :
    run.IsWhole ((a.selected cs).flatMap (·.categories)) := by
  refine ⟨hrun.ne_nil, ?_⟩
  by_cases hhandles : x.handles cs = true
  · have hselected : x ∈ a.selected cs := mem_filter.2 ⟨hx, hhandles⟩
    exact .inl fun c hc => mem_flatMap.2 ⟨x, hselected, hrun.subset hc⟩
  · refine .inr fun c hc hmem => ?_
    obtain ⟨y, hy, hcy⟩ := mem_flatMap.1 hmem
    obtain ⟨hy, hhandles'⟩ := mem_filter.1 hy
    have hne : x ≠ y := fun heq => hhandles (heq ▸ hhandles')
    exact h.disjoint hx hy hne (hrun.subset hc) hcy

/-! ### The report of an audit -/

variable (a : Auditor) (env : Environment) (t : AuditTarget) (r : Report) (d : Disk)

def play : List (Analyzer × AuditTrace) :=
  a.traces env t { r.params with platform := t.platform } (a.selected t.categories) d

def wanted : List Category := (a.selected t.categories).flatMap (·.categories)

lemma run_again (hsupports : a.supports t.platform) (isCanceled : Bool) : a.run env t (some r) isCanceled d =
      let s := a.runSelected env t (clearFor (a.selected t.categories) r) isCanceled d
      (s, if s.isCanceled then some .canceled else none) := by
  rw [run, hsupports]
  rfl

lemma params_clearFor (xs : List Analyzer) : (clearFor xs r).params = r.params := by
  rw [clearFor, Report.foldl_clear_eq]

lemma clearFor_selected (hwhole : ∀ run ∈ r.runs, run.IsWhole (a.wanted t)) : clearFor (a.selected t.categories) r =
      { r with
        issues := r.issues.filter fun i => !(a.wanted t).contains i.category
        runs := r.runs.filter fun run => !run.isAbout (a.wanted t) } := by
  change (a.wanted t).foldl Report.clear r = _
  rw [Report.foldl_clear_eq, Report.issues_foldl_clear, Report.runs_foldl_clear hwhole]

variable (hsupports : a.supports t.platform)
include hsupports

lemma isCanceled_run : (a.run env t (some r) false d).1.isCanceled = (a.play env t r d).any (·.2.cancels) := by
  rw [a.run_again env t r d hsupports, runSelected, isCanceled_foldl_runAnalyzer _ _ _ _ rfl, play, opening,
    params_clearFor]

lemma adds_run {isCanceled : Bool} (h : (a.run env t (some r) isCanceled d).1.isCanceled = false) :
    let left := clearFor (a.selected t.categories) r
    AuditState.Adds ((a.play env t r d).flatMap (·.2.issues)) ((a.play env t r d).map fun p => p.1.runOf env p.2) false
      { report := { left with params := { left.params with platform := t.platform } }, isCanceled, disk := d }
      (a.run env t (some r) isCanceled d).1 := by
  intro left
  have hparams : { left.params with platform := t.platform } = { r.params with platform := t.platform } := by
    rw [params_clearFor]
  rw [a.run_again env t r d hsupports] at h ⊢
  have hadds := a.adds_foldl_runAnalyzer env t (a.selected t.categories) h
  rw [play, ← hparams]
  exact hadds

end Auditor

/-! ### Taking a report apart -/

section Parts

variable {α β : Type} {knows isKnown : β → Bool} {old added : List β}

lemma mem_partOf {x : Nat × α} {xs : List (Nat × α)} (h : x ∈ xs) : x.2 ∈ partOf x.1 xs :=
  mem_map_of_mem (mem_filter.2 ⟨h, beq_self_eq_true x.1⟩)

lemma filter_eq_nil_of_forall (h : ∀ y ∈ added, knows y = false) : added.filter knows = [] := by
  rw [filter_eq_nil_iff]
  intro y hy
  rw [h y hy]
  exact Bool.false_ne_true

lemma filter_flatMap_parts {f : α → List β} {i : Nat} {xs : List (Nat × α)}
    (h : ∀ x ∈ xs, ∀ y ∈ f x.2, knows y = (x.1 == i)) :
    ((xs.map (·.2)).flatMap f).filter knows = (partOf i xs).flatMap f := by
  induction xs with
  | nil => rfl
  | cons x xs ih =>
    obtain ⟨hx, hxs⟩ := forall_mem_cons.1 h
    rw [map_cons, flatMap_cons, filter_append, ih hxs, partOf, partOf, filter_cons]
    cases hi : x.1 == i with
    | true =>
      have hown : (f x.2).filter knows = f x.2 := filter_eq_self.2 fun y hy => (hx y hy).trans hi
      rw [hown, if_pos rfl, map_cons, flatMap_cons]
    | false =>
      have hnone : (f x.2).filter knows = [] := filter_eq_nil_of_forall fun y hy => (hx y hy).trans hi
      rw [hnone, nil_append, if_neg Bool.false_ne_true]

lemma filter_append_of_imp (h : ∀ y, knows y = true → isKnown y = true) :
    (old.filter (fun y => !isKnown y) ++ added).filter knows = added.filter knows := by
  have hgone : (old.filter fun y => !isKnown y).filter knows = [] := by
    rw [filter_eq_nil_iff]
    intro y hy hknows
    have hkept := (mem_filter.1 hy).2
    rw [h y hknows] at hkept
    contradiction
  rw [filter_append, hgone, nil_append]

lemma filter_append_not (h : ∀ y ∈ added, isKnown y = true) :
    (old.filter (fun y => !isKnown y) ++ added).filter (fun y => !isKnown y) = old.filter fun y => !isKnown y := by
  have hadded : (added.filter fun y => !isKnown y) = [] :=
    filter_eq_nil_of_forall fun y hy => by rw [h y hy, Bool.not_true]
  rw [filter_append, hadded, append_nil, filter_filter]
  simp only [Bool.and_self]

end Parts

/-- Whether analyzers send issues of their own categories only. -/
def SendOwn (plays : List (Analyzer × AuditTrace)) : Prop :=
  ∀ p ∈ plays, ∀ i ∈ p.2.issues, i.category ∈ p.1.categories

namespace Report

structure IsReplaced (plays : List (Analyzer × AuditTrace)) (old new : Report) : Prop where
  /-- The issues of an analyzer's categories are those that it sent, in this order. -/
  issues_eq : ∀ p ∈ plays, (new.issues.filter fun i => p.1.categories.contains i.category) = p.2.issues
  /-- One run is about an analyzer's categories. -/
  runs_eq : ∀ p ∈ plays, ∃ start finish,
    new.runs.filter (·.isAbout p.1.categories) = [p.1.runAt start finish p.2.ending.outcome]
  other_issues_eq : (new.issues.filter fun i => !(plays.flatMap (·.1.categories)).contains i.category) =
    old.issues.filter fun i => !(plays.flatMap (·.1.categories)).contains i.category
  other_runs_eq : (new.runs.filter fun run => !run.isAbout (plays.flatMap (·.1.categories))) =
    old.runs.filter fun run => !run.isAbout (plays.flatMap (·.1.categories))
  session_eq : new.session = old.session
  rules_eq : new.rules = old.rules
  catalog_eq : new.catalog = old.catalog

/-- A report without what is of the categories of analyzers, and with new parameters. -/
def clearedFor (plays : List (Analyzer × AuditTrace)) (params : Params) (r : Report) : Report :=
  { r with
    issues := r.issues.filter fun i => !(plays.flatMap (·.1.categories)).contains i.category
    runs := r.runs.filter fun run => !run.isAbout (plays.flatMap (·.1.categories))
    params }

variable {plays plays' : List (Analyzer × AuditTrace)} {old new new' : Report} {sent : List (Nat × List Issue)}
  {ended : List (Nat × ModuleRun)}

lemma mem_categories_iff (hapart : Analyzer.AreApart (plays.map (·.1))) {i j : Nat} {p q : Analyzer × AuditTrace}
    (hi : plays[i]? = some p) (hj : plays[j]? = some q) {c : Category} (hc : c ∈ q.1.categories) :
    c ∈ p.1.categories ↔ j = i := by
  obtain ⟨hi', rfl⟩ := List.getElem?_eq_some_iff.1 hi
  obtain ⟨hj', rfl⟩ := List.getElem?_eq_some_iff.1 hj
  have hpairs := pairwise_iff_getElem.1 (pairwise_map.1 hapart.pairwise)
  refine ⟨fun hmem => ?_, fun heq => by subst heq; exact hc⟩
  rcases Nat.lt_trichotomy i j with hlt | heq | hgt
  · exact (hpairs i j hi' hj' hlt hmem hc).elim
  · exact heq.symm
  · exact (hpairs j i hj' hi' hgt hc hmem).elim

namespace Gathers

variable (h : Gathers plays false old new sent ended)
include h

lemma category_mem_of_sent (hsend : SendOwn plays) {e : Nat × List Issue} (he : e ∈ sent) {issue : Issue}
    (hissue : issue ∈ e.2) : ∃ q, plays[e.1]? = some q ∧ issue.category ∈ q.1.categories := by
  have hlt := h.sent_lt e he
  have hq : plays[e.1]? = some plays[e.1] := List.getElem?_eq_getElem hlt
  refine ⟨_, hq, hsend plays[e.1] (getElem_mem hlt) issue ?_⟩
  have hown : partOf e.1 sent = plays[e.1].2.deliveries := (h.each_started hq).1
  rw [← AuditTrace.flatten_deliveries, ← hown]
  exact mem_flatten.2 ⟨e.2, mem_partOf he, hissue⟩

lemma analyzed_of_ended {e : Nat × ModuleRun} (he : e ∈ ended) :
    ∃ q, plays[e.1]? = some q ∧ e.2.analyzed = q.1.categories := by
  have hlt := h.ended_lt e he
  have hq : plays[e.1]? = some plays[e.1] := List.getElem?_eq_getElem hlt
  obtain ⟨start, finish, hrun⟩ := (h.each_started hq).2
  have hmem := mem_partOf he
  rw [hrun, mem_singleton] at hmem
  exact ⟨_, hq, congrArg ModuleRun.analyzed hmem⟩

variable (hapart : Analyzer.AreApart (plays.map (·.1))) {i : Nat} {p : Analyzer × AuditTrace}
  (hi : plays[i]? = some p)
include hapart hi

lemma filter_sent_eq (hsend : SendOwn plays) :
    ((sent.map (·.2)).flatten.filter fun issue => p.1.categories.contains issue.category) = p.2.issues := by
  have hparts : ∀ e ∈ sent, ∀ issue ∈ id e.2, p.1.categories.contains issue.category = (e.1 == i) := by
    intro e he issue hissue
    obtain ⟨q, hq, hc⟩ := h.category_mem_of_sent hsend he hissue
    rw [Bool.eq_iff_iff, contains_iff_mem, beq_iff_eq]
    exact mem_categories_iff hapart hi hq hc
  rw [← flatMap_id, filter_flatMap_parts hparts, flatMap_id, (h.each_started hi).1, AuditTrace.flatten_deliveries]

lemma filter_ended_eq : (ended.map (·.2)).filter (·.isAbout p.1.categories) = partOf i ended := by
  have hparts : ∀ e ∈ ended, ∀ run ∈ [e.2], run.isAbout p.1.categories = (e.1 == i) := by
    intro e he run hmem
    obtain rfl := mem_singleton.1 hmem
    obtain ⟨q, hq, hanalyzed⟩ := h.analyzed_of_ended he
    rw [Bool.eq_iff_iff, ModuleRun.isAbout_eq_true_iff, beq_iff_eq, hanalyzed]
    constructor
    · rintro ⟨c, hc, hmem⟩
      exact (mem_categories_iff hapart hi hq hc).1 hmem
    · intro heq
      obtain ⟨c, hc⟩ := exists_mem_of_ne_nil _ (hapart.ne_nil q.1 (mem_map_of_mem (mem_of_getElem? hq)))
      exact ⟨c, hc, (mem_categories_iff hapart hi hq hc).2 heq⟩
  rw [← flatMap_singleton' (ended.map (·.2)), filter_flatMap_parts hparts, flatMap_singleton']

end Gathers

/-- What a mix of analyzers leaves of a report that their categories were cleared from. -/
lemma isReplaced_of_gathers {params : Params} (h : Gathers plays false (old.clearedFor plays params) new sent ended)
    (hapart : Analyzer.AreApart (plays.map (·.1))) (hsend : SendOwn plays) : old.IsReplaced plays new := by
  have hadded : ∀ issue ∈ (sent.map (·.2)).flatten, (plays.flatMap (·.1.categories)).contains issue.category := by
    intro issue hissue
    obtain ⟨batch, hbatch, hmem⟩ := mem_flatten.1 hissue
    obtain ⟨e, he, rfl⟩ := mem_map.1 hbatch
    obtain ⟨q, hq, hc⟩ := h.category_mem_of_sent hsend he hmem
    exact contains_iff_mem.2 (mem_flatMap.2 ⟨q, mem_of_getElem? hq, hc⟩)
  have hclosed : ∀ run ∈ ended.map (·.2), run.isAbout (plays.flatMap (·.1.categories)) := by
    intro run hrun
    obtain ⟨e, he, rfl⟩ := mem_map.1 hrun
    obtain ⟨q, hq, hanalyzed⟩ := h.analyzed_of_ended he
    have hmem := mem_of_getElem? hq
    obtain ⟨c, hc⟩ := exists_mem_of_ne_nil _ (hapart.ne_nil q.1 (mem_map_of_mem hmem))
    exact ModuleRun.isAbout_eq_true_iff.2 ⟨c, hanalyzed ▸ hc, mem_flatMap.2 ⟨q, hmem, hc⟩⟩
  rw [h.report_eq, clearedFor]
  refine ⟨fun p hp => ?_, fun p hp => ?_, filter_append_not hadded, filter_append_not hclosed, rfl, rfl, rfl⟩
  · obtain ⟨i, hi⟩ := mem_iff_getElem?.1 hp
    have hknown (issue : Issue) (hc : p.1.categories.contains issue.category) :
        (plays.flatMap (·.1.categories)).contains issue.category :=
      contains_iff_mem.2 (mem_flatMap.2 ⟨p, hp, contains_iff_mem.1 hc⟩)
    exact (filter_append_of_imp hknown).trans (h.filter_sent_eq hapart hi hsend)
  · obtain ⟨i, hi⟩ := mem_iff_getElem?.1 hp
    obtain ⟨start, finish, hrun⟩ := (h.each_started hi).2
    have hknown (run : ModuleRun) (habout : run.isAbout p.1.categories) :
        run.isAbout (plays.flatMap (·.1.categories)) := by
      rw [ModuleRun.isAbout_eq_true_iff] at habout ⊢
      obtain ⟨c, hc, hmem⟩ := habout
      exact ⟨c, hc, mem_flatMap.2 ⟨p, hp, hmem⟩⟩
    exact ⟨start, finish, (filter_append_of_imp hknown).trans ((h.filter_ended_eq hapart hi).trans hrun)⟩

variable (hsame : (plays'.map fun p => (p.1, p.2.issues)) = plays.map fun p => (p.1, p.2.issues))
include hsame

lemma exists_mem_same {p : Analyzer × AuditTrace} (hp : p ∈ plays) :
    ∃ p' ∈ plays', p'.1 = p.1 ∧ p'.2.issues = p.2.issues := by
  have hmem : (p.1, p.2.issues) ∈ plays'.map fun p => (p.1, p.2.issues) := hsame ▸ mem_map_of_mem hp
  obtain ⟨p', hp', heq⟩ := mem_map.1 hmem
  exact ⟨p', hp', Prod.mk.inj heq⟩

lemma sendOwn_of_same (h : SendOwn plays) : SendOwn plays' := by
  intro q hq
  obtain ⟨q', hq', hx, hissues⟩ := exists_mem_same hsame.symm hq
  exact hx ▸ hissues ▸ h q' hq'

/-- Analyzers that find the same again leave the issues of every category as they are. -/
lemma IsReplaced.filter_category_eq (h : old.IsReplaced plays new) (h' : new.IsReplaced plays' new') (c : Category) :
    new'.issues.filter (·.category == c) = new.issues.filter (·.category == c) := by
  have hpart {p : Issue → Bool} (hp : ∀ i : Issue, (i.category == c) = true → p i = true) (issues : List Issue) :
      (issues.filter p).filter (·.category == c) = issues.filter (·.category == c) := by
    rw [filter_filter]
    refine filter_congr fun i _ => ?_
    cases hi : i.category == c with
    | false => rfl
    | true => rw [hp i hi, Bool.and_true]
  by_cases hc : ∃ p ∈ plays, c ∈ p.1.categories
  · obtain ⟨p, hp, hc⟩ := hc
    obtain ⟨p', hp', hx, hissues⟩ := exists_mem_same hsame hp
    have hkeeps (i : Issue) (hi : (i.category == c) = true) : p.1.categories.contains i.category = true := by
      rwa [eq_of_beq hi, contains_iff_mem]
    rw [← hpart hkeeps new'.issues, ← hpart hkeeps new.issues, h.issues_eq p hp, ← hx, h'.issues_eq p' hp', hissues]
  · have hkeeps (i : Issue) (hi : (i.category == c) = true) :
        (!(plays'.flatMap (·.1.categories)).contains i.category) = true := by
      rw [eq_of_beq hi, Bool.not_eq_true', ← Bool.not_eq_true, contains_iff_mem, mem_flatMap]
      rintro ⟨p', hp', hmem⟩
      obtain ⟨p, hp, hx, -⟩ := exists_mem_same hsame.symm hp'
      exact hc ⟨p, hp, hx ▸ hmem⟩
    rw [← hpart hkeeps new'.issues, h'.other_issues_eq, hpart hkeeps]

end Report

namespace Auditor

/-- What an audit over a report that nothing cancels leaves, with what its analyzers do: one after
another, or at the same time under some schedule. -/
inductive Reaudits (a : Auditor) (t : AuditTarget) : List (Analyzer × AuditTrace) → Report → Report → Prop
  | inTurn {env : Environment} {r : Report} {isCanceled : Bool} {d : Disk}
      (hcanceled : (a.run env t (some r) isCanceled d).1.isCanceled = false) :
      Reaudits a t (a.play env t r d) r (a.run env t (some r) isCanceled d).1.report
  | together {plays : List (Analyzer × AuditTrace)} {r : Report} {isCanceled : Bool} {d : Disk} {schedule : List Move}
      (hplays : plays.map (·.1) = a.selected t.categories)
      (hfinished : (a.runTogether t r isCanceled d plays schedule).isFinished = true)
      (hcanceled : (a.runTogether t r isCanceled d plays schedule).state.isCanceled = false) :
      Reaudits a t plays r (a.runTogether t r isCanceled d plays schedule).state.report

/-- Further audits in which the analyzers find the same again. -/
def ReauditsAgain (a : Auditor) (t : AuditTarget) (plays : List (Analyzer × AuditTrace)) : Report → Report → Prop :=
  Relation.ReflTransGen fun r r' => ∃ plays',
    (plays'.map fun p => (p.1, p.2.issues)) = (plays.map fun p => (p.1, p.2.issues)) ∧ a.Reaudits t plays' r r'

variable {a : Auditor} {env : Environment} {t : AuditTarget} {r r' : Report} {d : Disk} {isCanceled : Bool}
  {plays plays' : List (Analyzer × AuditTrace)}

section

variable (hsupports : a.supports t.platform = true) (hapart : Analyzer.AreApart a.analyzers)
  (hruns : ∀ run ∈ r.runs, ∃ x ∈ a.analyzers, run.IsOf x)

include hapart hruns

lemma report_opening (hplays : plays.map (·.1) = a.selected t.categories) :
    (opening t (clearFor (a.selected t.categories) r) isCanceled d).report =
      r.clearedFor plays { r.params with platform := t.platform } := by
  have hwanted : a.wanted t = plays.flatMap (·.1.categories) := by rw [wanted, ← hplays, flatMap_map]
  have hwhole : ∀ run ∈ r.runs, run.IsWhole (a.wanted t) := by
    intro run hrun
    obtain ⟨x, hx, hof⟩ := hruns run hrun
    exact isWhole_of_isOf hapart hx hof t.categories
  rw [opening, a.clearFor_selected t r hwhole, hwanted]
  rfl

include hsupports

lemma Reaudits.gathers (h : a.Reaudits t plays r r') : plays.map (·.1) = a.selected t.categories ∧ ∃ sent ended,
    Report.Gathers plays false (r.clearedFor plays { r.params with platform := t.platform }) r' sent ended := by
  cases h with
  | @inTurn env r isCanceled d hcanceled =>
    have hplays : (a.play env t r d).map (·.1) = a.selected t.categories := a.map_fst_traces ..
    rw [a.run_again env t r d hsupports] at hcanceled ⊢
    have hgathers := a.gathers_foldl_runAnalyzer env t (a.selected t.categories) hcanceled
    have hplay : a.traces env t (opening t (clearFor (a.selected t.categories) r) isCanceled d).report.params
        (a.selected t.categories) d = a.play env t r d := by
      rw [play, opening, params_clearFor]
    dsimp only at hgathers
    rw [show (opening t (clearFor (a.selected t.categories) r) isCanceled d).disk = d from rfl, hplay,
      report_opening hapart hruns hplays] at hgathers
    exact ⟨hplays, _, _, hgathers⟩
  | together hplays hfinished hcanceled =>
    obtain ⟨sent, ended, hfollows⟩ := (ParallelAudit.follows_start _ plays).run _
    have hgathers := hfollows.gathers hfinished
    rw [runTogether] at hcanceled ⊢
    rw [hcanceled, report_opening hapart hruns hplays] at hgathers
    exact ⟨hplays, sent, ended, hgathers⟩

lemma Reaudits.isOf (h : a.Reaudits t plays r r') : ∀ run ∈ r'.runs, ∃ x ∈ a.analyzers, run.IsOf x := by
  obtain ⟨hplays, sent, ended, hgathers⟩ := h.gathers hsupports hapart hruns
  intro run hrun
  rw [hgathers.report_eq] at hrun
  rcases mem_append.1 hrun with hkept | hadded
  · exact hruns run (mem_filter.1 hkept).1
  · obtain ⟨e, he, rfl⟩ := mem_map.1 hadded
    obtain ⟨q, hq, hanalyzed⟩ := hgathers.analyzed_of_ended he
    have hselected : q.1 ∈ a.selected t.categories := hplays ▸ mem_map_of_mem (mem_of_getElem? hq)
    have hmem : q.1 ∈ a.analyzers := (mem_filter.1 hselected).1
    exact ⟨q.1, hmem, hanalyzed ▸ hapart.ne_nil q.1 hmem, hanalyzed ▸ List.Subset.refl _⟩

lemma Reaudits.isReplaced (h : a.Reaudits t plays r r') (hsend : SendOwn plays) : r.IsReplaced plays r' := by
  obtain ⟨hplays, sent, ended, hgathers⟩ := h.gathers hsupports hapart hruns
  exact Report.isReplaced_of_gathers hgathers (hplays ▸ hapart.sublist filter_sublist) hsend

/-- Analyzers see of a report the parameters only. -/
lemma Reaudits.play_eq (h : a.Reaudits t plays r r') (env : Environment) (d : Disk) :
    a.play env t r' d = a.play env t r d := by
  obtain ⟨-, sent, ended, hgathers⟩ := h.gathers hsupports hapart hruns
  have hparams : r'.params = { r.params with platform := t.platform } := by rw [hgathers.report_eq]; rfl
  rw [play, hparams, play]

lemma ReauditsAgain.filter_category_eq (hsend : SendOwn plays) (h : a.Reaudits t plays r r') {last : Report}
    (hagain : a.ReauditsAgain t plays r' last) (c : Category) :
    last.issues.filter (·.category == c) = r'.issues.filter (·.category == c) := by
  -- along the audits, each report is what replacing the parts of an earlier one gives
  have hlast : (∀ run ∈ last.runs, ∃ x ∈ a.analyzers, run.IsOf x) ∧
      (∃ (old : Report) (plays' : List (Analyzer × AuditTrace)),
        (plays'.map fun p => (p.1, p.2.issues)) = (plays.map fun p => (p.1, p.2.issues)) ∧
          old.IsReplaced plays' last) ∧
      last.issues.filter (·.category == c) = r'.issues.filter (·.category == c) := by
    induction hagain with
    | refl =>
      exact ⟨h.isOf hsupports hapart hruns, ⟨r, plays, rfl, h.isReplaced hsupports hapart hruns hsend⟩, rfl⟩
    | tail _ hstep ih =>
      obtain ⟨hof, ⟨old, before, hbefore, hreplaced⟩, heq⟩ := ih
      obtain ⟨plays', hsame, hnext⟩ := hstep
      have hreplaced' := hnext.isReplaced hsupports hapart hof (Report.sendOwn_of_same hsame hsend)
      refine ⟨hnext.isOf hsupports hapart hof, ⟨_, plays', hsame, hreplaced'⟩, ?_⟩
      rw [← heq]
      exact hreplaced.filter_category_eq (hsame.trans hbefore.symm) hreplaced' c
  exact hlast.2.2

end

lemma run_of_not_supports (h : a.supports t.platform = false) : a.run env t (some r) isCanceled d =
      ({ report := r, disk := d,
         log := [{ level := .error, message := "platform not supported",
                   values := [("platform", t.platform.display)] }] },
        some (.unsupportedPlatform t.platform)) := by
  rw [run, h]
  rfl

/-- An audit over a report on a platform that is not supported leaves the report and the files
alone. On one that is, an audit that nothing cancels replaces the parts of the selected analyzers,
by what an observer sees them send and by their runs, and leaves everything else, whether they run
one after another or at the same time. On unchanged files they do what they did before, and however
often they find the same again, the issues of every category stay. -/
theorem run_replaces_selected (a : Auditor) (env : Environment) (t : AuditTarget) (r : Report) (isCanceled : Bool)
    (d : Disk) :
    let s := a.run env t (some r) isCanceled d
    Analyzer.AreApart Analyzer.builtin ∧
    (a.supports t.platform = false →
      s.2 = some (.unsupportedPlatform t.platform) ∧ s.1.report = r ∧ s.1.disk = d ∧ s.1.batches = [] ∧
      s.1.runs = [] ∧ ∀ xs, { a with analyzers := xs }.run env t (some r) isCanceled d = s) ∧
    (a.supports t.platform = true → s.1.isCanceled = false →
      s.2 = none ∧ (a.play env t r d).map (·.1) = a.selected t.categories ∧
      s.1.batches.flatten = (a.play env t r d).flatMap (·.2.issues) ∧
      s.1.runs = (a.play env t r d).map (fun p => p.1.runOf env p.2) ∧
      a.Reaudits t (a.play env t r d) r s.1.report) ∧
    (a.supports t.platform = true → Analyzer.AreApart a.analyzers →
      (∀ run ∈ r.runs, ∃ x ∈ a.analyzers, run.IsOf x) →
      ∀ plays r', SendOwn plays → a.Reaudits t plays r r' →
        r.IsReplaced plays r' ∧ (∀ env d, a.play env t r' d = a.play env t r d) ∧
        ∀ last, a.ReauditsAgain t plays r' last → ∀ c,
          last.issues.filter (·.category == c) = r'.issues.filter (·.category == c)) := by
  intro s
  refine ⟨Analyzer.areApart_builtin, fun hrefused => ?_, fun hsupports hcanceled => ?_,
    fun hsupports hapart hruns plays r' hsend h => ?_⟩
  · have hs : s = _ := run_of_not_supports hrefused
    rw [hs]
    exact ⟨rfl, rfl, rfl, rfl, rfl, fun xs => run_of_not_supports hrefused⟩
  · have hadds := a.adds_run env t r d hsupports hcanceled
    refine ⟨?_, a.map_fst_traces .., hadds.batches_eq, hadds.runs_eq, .inTurn hcanceled⟩
    have hs : s = _ := a.run_again env t r d hsupports isCanceled
    rw [hs] at hcanceled ⊢
    exact if_neg (hcanceled ▸ Bool.false_ne_true)
  · refine ⟨h.isReplaced hsupports hapart hruns hsend, h.play_eq hsupports hapart hruns, fun last hagain => ?_⟩
    exact hagain.filter_category_eq hsupports hapart hruns hsend h

def codeScript : Script where
  name := "code"
  categories := [.code]
  batches := [[{ category := .code, description := "new" }]]

def settingsScript : Script where
  name := "settings"
  categories := [.settings]

def codeAndSettings : Auditor where
  config := { analysis := { supportedPlatforms := [] } }
  analyzers := [codeScript.analyzer, settingsScript.analyzer]
  registry := {}
  rules := RuleSet.empty
  cache := Cache.disabled

def auditCode (r : Report) : AuditState × Option Failure :=
  codeAndSettings.run {} { categories := [.code] } (some r) false {}

def olderReport : Report where
  issues :=
    [{ category := .code, description := "old" }, { category := .settings, description := "kept", fixed := true }]
  runs := [{ name := "settings", categories := some [.settings] }, { name := "code", categories := some [.code] }]

/-- Both analyzers at the same time: one starts after the other has, and ends before it. -/
def auditTogether : ParallelAudit :=
  codeAndSettings.runTogether {} olderReport false {} (codeAndSettings.play {} {} olderReport {})
    ([0, 1, 0, 1, 0].map fun i => .advance i Instant.unset)

theorem run_replaces_selected_auditCode :
    (auditCode olderReport).2 = none ∧
    olderReport.IsReplaced (codeAndSettings.play {} { categories := [.code] } olderReport {})
      (auditCode olderReport).1.report ∧
    ((auditCode (auditCode olderReport).1.report).1.report.issues.filter (·.category == .code)).length = 1 ∧
    (codeAndSettings.run {} { platform := .ios } (some olderReport) false {}).2 = some (.unsupportedPlatform .ios) ∧
    (codeAndSettings.run {} { platform := .ios } (some olderReport) false {}).1.report = olderReport ∧
    auditTogether.state.report.runs.map (·.name) = ["settings", "code"] ∧
    olderReport.IsReplaced (codeAndSettings.play {} {} olderReport {}) auditTogether.state.report := by
  have hsupports : codeAndSettings.supports Platform.default = true := by decide
  have hrefused : codeAndSettings.supports Platform.ios = false := by decide
  have hapart : Analyzer.AreApart codeAndSettings.analyzers := by
    have hcategories : Category.code ≠ Category.settings := by decide
    refine ⟨?_, ?_⟩
    · simp [codeAndSettings, Script.analyzer, codeScript, settingsScript]
    · simpa [codeAndSettings, Script.analyzer, codeScript, settingsScript] using hcategories
  have hruns : ∀ run ∈ olderReport.runs, ∃ x ∈ codeAndSettings.analyzers, run.IsOf x := by
    simp only [olderReport, List.forall_mem_cons]
    exact ⟨⟨settingsScript.analyzer, by simp [codeAndSettings], List.cons_ne_nil _ _, List.Subset.refl _⟩,
      ⟨codeScript.analyzer, by simp [codeAndSettings], List.cons_ne_nil _ _, List.Subset.refl _⟩, by simp⟩
  have hboth : codeAndSettings.play {} {} olderReport {} =
      [(codeScript.analyzer, { steps := codeScript.batches.map .send, disk := {} }),
        (settingsScript.analyzer, { disk := {} })] := rfl
  have hsend : SendOwn (codeAndSettings.play {} {} olderReport {}) := by
    rw [hboth]
    simp [SendOwn, AuditTrace.issues, AuditTrace.batches, codeScript, settingsScript, Script.analyzer]
  have hsendCode (r : Report) : SendOwn (codeAndSettings.play {} { categories := [.code] } r {}) := fun p hp =>
    hsend p (List.mem_of_mem_head? (List.mem_singleton.1 hp ▸ rfl))
  have hcanceled (r : Report) : (auditCode r).1.isCanceled = false := by
    rw [auditCode, isCanceled_run _ _ _ _ _ hsupports]
    rfl
  obtain ⟨-, -, hran, hreplaces⟩ := run_replaces_selected codeAndSettings {} { categories := [.code] } olderReport false {}
  obtain ⟨hfailure, -, -, -, hfirst⟩ := hran hsupports (hcanceled _)
  obtain ⟨hreplaced, hplay, hagain⟩ := hreplaces hsupports hapart hruns _ _ (hsendCode _) hfirst
  have hsecond := hagain _ (.single ⟨_, by rw [hplay], .inTurn (hcanceled (auditCode olderReport).1.report)⟩) .code
  obtain ⟨-, hrefuses, -⟩ := run_replaces_selected codeAndSettings {} { platform := .ios } olderReport false {}
  obtain ⟨hunsupported, hreport, -⟩ := hrefuses hrefused
  obtain ⟨-, -, -, htogether⟩ := run_replaces_selected codeAndSettings {} {} olderReport false {}
  refine ⟨hfailure, hreplaced, congrArg List.length hsecond, hunsupported, hreport, rfl, ?_⟩
  exact (htogether hsupports hapart hruns _ _ hsend (.together rfl rfl rfl)).1

end Auditor

end BytecodeAudit
