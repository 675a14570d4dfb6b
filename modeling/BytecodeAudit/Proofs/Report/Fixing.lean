import Mathlib.Data.List.Perm.Basic
import BytecodeAudit.Report.Basic
import BytecodeAudit.Proofs.Ascending

/-!
# Summaries and marks of fixed findings

A report can hold a finding several times, some of them fixed already. Looking for the match goes
through all issues: one that is fixed is given up for the next one, and one that is not is kept
(`foldl_betterMatch_of_isOpen`).
-/

namespace BytecodeAudit

open List

/-! ### Summaries

What is counted does not depend on an order (`Report.summary_eq_of_perm`): counts are kept in
ascending order of names (`Counts.bump_comm`). -/

namespace Counts

variable {a b n : String} {k : Int} {cs : Counts}

lemma bump_cons_self : bump n ((n, k) :: cs) = (n, k + 1) :: cs := by simp [bump, Text.place]

lemma bump_cons_of_lt (h : Text.rank a < Text.rank n) : bump a ((n, k) :: cs) = (a, 1) :: (n, k) :: cs := by
  have hne : n ≠ a := fun heq => h.ne (congrArg _ heq.symm)
  simp [bump, Text.place, h, hne]

lemma bump_cons_of_gt (h : Text.rank n < Text.rank a) : bump a ((n, k) :: cs) = (n, k) :: bump a cs := by
  have hne : n ≠ a := fun heq => h.ne (congrArg _ heq)
  simp [bump, Text.place, h.not_gt, hne]

lemma bump_comm_of_lt (h : Text.rank a < Text.rank b) (cs : Counts) :
    bump b (bump a cs) = bump a (bump b cs) := by
  induction cs with
  | nil =>
    have hnil (n : String) : bump n [] = [(n, 1)] := rfl
    rw [hnil, hnil, bump_cons_of_lt h, bump_cons_of_gt h, hnil]
  | cons e cs ih =>
    obtain ⟨n, k⟩ := e
    rcases Text.rank_trichotomy n a with hn | rfl | hn
    · have hnb := hn.trans h
      rw [bump_cons_of_gt hn, bump_cons_of_gt hnb, bump_cons_of_gt hnb, bump_cons_of_gt hn, ih]
    · rw [bump_cons_self, bump_cons_of_gt h, bump_cons_of_gt h, bump_cons_self]
    · rw [bump_cons_of_lt hn, bump_cons_of_gt h]
      -- the first name stands before everything that the second one meets
      rcases Text.rank_trichotomy n b with hnb | rfl | hnb
      · rw [bump_cons_of_gt hnb, bump_cons_of_lt hn]
      · rw [bump_cons_self, bump_cons_of_lt hn]
      · rw [bump_cons_of_lt hnb, bump_cons_of_lt h]

lemma bump_comm (a b : String) (cs : Counts) : bump b (bump a cs) = bump a (bump b cs) := by
  rcases Text.rank_trichotomy a b with h | rfl | h
  · exact bump_comm_of_lt h cs
  · rfl
  · exact (bump_comm_of_lt h cs).symm

lemma foldl_bump_eq_of_perm {α : Type} (name : α → String) {xs ys : List α} (h : xs.Perm ys) (cs : Counts) :
    xs.foldl (fun cs x => cs.bump (name x)) cs = ys.foldl (fun cs x => cs.bump (name x)) cs :=
  h.foldl_eq' (fun x _ y _ cs => bump_comm (name x) (name y) cs) cs

end Counts

/-- A summary depends on the issues and on the outcomes of the runs, in any order, and on what
decides severities. -/
lemma Report.summary_eq_of_perm {r r' : Report} (hissues : r.issues.Perm r'.issues)
    (hruns : (r.runs.map (·.outcome)).Perm (r'.runs.map (·.outcome)))
    (hseverity : ∀ i, r.effectiveSeverity i = r'.effectiveSeverity i) : r.summary = r'.summary := by
  have hcount (o : Outcome) : r.runs.countP (·.outcome == o) = r'.runs.countP (·.outcome == o) := by
    have h := hruns.countP_eq (· == o)
    rwa [countP_map, countP_map] at h
  have hseverities : ((r.issues.map r.effectiveSeverity).filter Severity.isCounted).Perm
      ((r'.issues.map r'.effectiveSeverity).filter Severity.isCounted) := by
    rw [show r.effectiveSeverity = r'.effectiveSeverity from funext hseverity]
    exact (hissues.map _).filter _
  simp only [summary, Summary.mk.injEq]
  exact ⟨congrArg _ hissues.length_eq, congrArg _ (hissues.countP_eq _), Counts.foldl_bump_eq_of_perm _ hissues _,
    Counts.foldl_bump_eq_of_perm _ hseverities _, congrArg _ (hcount _), congrArg _ (hcount _)⟩

open Option

namespace Issue

variable {a b i : Issue}

/-- Whether an issue is the same finding as another one, and not fixed. -/
def isOpen (finding i : Issue) : Bool := i.sameFinding finding && !i.fixed

def fix (i : Issue) : Issue := { i with fixed := true }

lemma fix_eq_self (h : i.fixed) : i.fix = i := by rw [fix, ← h]

lemma isOpen_fix (finding i : Issue) : finding.isOpen i.fix = false := Bool.and_false _

lemma sameFinding_iff : a.sameFinding b ↔ a.category = b.category ∧ a.descriptorId = b.descriptorId ∧
    a.description = b.description ∧ a.location = b.location ∧ a.context = b.context := by
  simp only [sameFinding, Bool.and_eq_true, beq_iff_eq, and_assoc]

lemma isOpen_congr (h : a.sameFinding b) : a.isOpen = b.isOpen := by
  obtain ⟨hcategory, hid, hdescription, hlocation, hcontext⟩ := sameFinding_iff.1 h
  funext i
  simp only [isOpen, sameFinding, hcategory, hid, hdescription, hlocation, hcontext]

end Issue

namespace Report

open Issue

variable {r : Report} {finding i : Issue} {issues before after : List Issue}

/-! ### Matches -/

lemma foldl_betterMatch_of_isOpen (h : i.fixed = false) (k : Nat) (xs : List (Issue × Nat)) :
    xs.foldl (betterMatch finding) (some (i, k)) = some (i, k) := by
  induction xs with
  | nil => rfl
  | cons x xs ih =>
    rw [foldl_cons, betterMatch, all_some, h, Bool.false_and, if_neg Bool.false_ne_true, ih]

lemma foldl_betterMatch_of_settled {found : Option (Issue × Nat)} (hfound : found.all (·.1.fixed)) (k : Nat)
    (h : ∀ i ∈ issues, finding.isOpen i = false) :
    let last := (issues.zipIdx k).foldl (betterMatch finding) found
    last.all (·.1.fixed) = true ∧ last.isSome = (found.isSome || issues.any (·.sameFinding finding)) ∧
      ∀ p ∈ last, found = some p ∨ p ∈ issues.zipIdx k := by
  induction issues generalizing found k with
  | nil => simp [hfound]
  | cons i issues ih =>
    obtain ⟨hi, hrest⟩ := forall_mem_cons.1 h
    rw [zipIdx_cons, foldl_cons, betterMatch, hfound, Bool.true_and, any_cons]
    by_cases hsame : i.sameFinding finding = true
    · have hfixed : i.fixed := by simpa [isOpen, hsame] using hi
      have hlast := @ih (some (i, k)) hfixed (k + 1) hrest
      rw [if_pos hsame]
      grind
    · have hlast := ih hfound (k + 1) hrest
      rw [if_neg hsame]
      grind

/-! ### One finding -/

lemma markFixed_of_isOpen (h : r.issues = before ++ i :: after) (hbefore : ∀ j ∈ before, finding.isOpen j = false)
    (hi : finding.isOpen i) : r.markFixed finding = ({ r with issues := before ++ i.fix :: after }, true) := by
  obtain ⟨hsame, hfixed⟩ : i.sameFinding finding = true ∧ i.fixed = false := by simpa [isOpen] using hi
  have hmatch : r.issues.zipIdx.foldl (betterMatch finding) none = some (i, before.length) := by
    rw [h, zipIdx_append, foldl_append, zipIdx_cons, foldl_cons, betterMatch,
      (foldl_betterMatch_of_settled rfl 0 hbefore).1, hsame, Bool.true_and, if_pos rfl,
      foldl_betterMatch_of_isOpen hfixed, Nat.zero_add]
  have hmodify : r.issues.modify before.length fix = before ++ i.fix :: after := by
    rw [h]
    clear h hbefore hmatch
    induction before with
    | nil => rfl
    | cons b before ih => exact congrArg (b :: ·) ih
  simp only [markFixed, hmatch]
  exact congrArg (fun issues => ({ r with issues }, true)) hmodify

lemma markFixed_of_settled (h : ∀ i ∈ r.issues, finding.isOpen i = false) :
    r.markFixed finding = (r, r.issues.any (·.sameFinding finding)) := by
  obtain ⟨hfixed, hsome, hmem⟩ := @foldl_betterMatch_of_settled finding r.issues none rfl 0 h
  rw [isSome_none, Bool.false_or] at hsome
  rw [markFixed, ← hsome]
  generalize r.issues.zipIdx.foldl (betterMatch finding) none = last at hfixed hmem ⊢
  cases last with
  | none => rfl
  | some p =>
    have hat := mem_zipIdx_iff_getElem?.1 ((hmem p rfl).resolve_left nofun)
    have hmodify : r.issues.modify p.2 fix = r.issues := by
      refine ext_getElem? fun j => ?_
      rw [getElem?_modify]
      by_cases hj : p.2 = j
      · have hfix : p.1.fix = p.1 := fix_eq_self hfixed
        simp [← hj, hat, hfix]
      · simp [hj]
    exact congrArg (fun issues => ({ r with issues }, true)) hmodify

/-! ### Several findings -/

def markAll (r : Report) (findings : List Issue) : Report := findings.foldl (fun r finding => (r.markFixed finding).1) r

lemma markAll_eq {copies front back : List Issue} (hcopies : ∀ c ∈ copies, c.sameFinding finding)
    (h : r.issues = front ++ back) (hcount : front.countP finding.isOpen = copies.length) :
    r.markAll copies = { r with issues := front.map (fun i => if finding.isOpen i then i.fix else i) ++ back } := by
  induction copies generalizing r front with
  | nil =>
    rw [length_nil, countP_eq_zero] at hcount
    rw [map_congr_left fun i hi => if_neg (hcount i hi), List.map_id', ← h]
    rfl
  | cons c copies ih =>
    obtain ⟨hc, hcopies⟩ := forall_mem_cons.1 hcopies
    have hsome : ∃ i ∈ front, finding.isOpen i := countP_pos_iff.1 (hcount ▸ Nat.succ_pos copies.length)
    obtain ⟨i, hfind⟩ := isSome_iff_exists.1 (List.find?_isSome.2 hsome)
    obtain ⟨hi, before, after, rfl, hbefore⟩ := List.find?_eq_some_iff_append.1 hfind
    have hstep : r.markFixed c = ({ r with issues := before ++ i.fix :: after ++ back }, true) := by
      rw [append_assoc] at h ⊢
      exact markFixed_of_isOpen h (by simpa [isOpen_congr hc] using hbefore) (isOpen_congr hc ▸ hi)
    have hrest : (before ++ i.fix :: after).countP finding.isOpen = copies.length := by
      rw [countP_append, countP_cons_of_pos hi, length_cons] at hcount
      rw [countP_append, countP_cons_of_neg (by simp [isOpen_fix])]
      omega
    rw [markAll, foldl_cons, hstep]
    refine (ih hcopies rfl hrest).trans ?_
    simp [hi, isOpen_fix]

lemma countP_fixed_map (finding : Issue) (issues : List Issue) :
    (issues.map fun i => if finding.isOpen i then i.fix else i).countP (·.fixed) =
      issues.countP (·.fixed) + issues.countP finding.isOpen := by
  induction issues with
  | nil => rfl
  | cons i issues ih =>
    rw [map_cons, countP_cons, countP_cons, countP_cons, ih]
    by_cases hi : finding.isOpen i = true
    · have hfixed : i.fixed = false := by simpa using (Bool.and_eq_true_iff.1 hi).2
      simp only [hi, hfixed, fix, if_true, if_false, Bool.false_eq_true]
      omega
    · simp only [hi, if_false, Bool.false_eq_true]
      omega

/-- A finding is fixed once with each mark. Without the finding in the report nothing changes. Else
the first issue that is the finding and not fixed gets the mark, if there is one, and the rest
stays. So as many marks as there are such issues in the front of the report fix just these, and the
summary counts as many more fixed ones. -/
theorem markFixed_marks_one (r : Report) (finding : Issue) :
    ((∀ i ∈ r.issues, i.sameFinding finding = false) → r.markFixed finding = (r, false)) ∧
    (∀ before i after, r.issues = before ++ i :: after → (∀ j ∈ before, finding.isOpen j = false) →
      finding.isOpen i = true → r.markFixed finding = ({ r with issues := before ++ i.fix :: after }, true)) ∧
    ((∃ i ∈ r.issues, i.sameFinding finding = true) → (∀ i ∈ r.issues, finding.isOpen i = false) →
      r.markFixed finding = (r, true)) ∧
    ∀ copies front back, (∀ c ∈ copies, c.sameFinding finding = true) → r.issues = front ++ back →
      front.countP finding.isOpen = copies.length →
      r.markAll copies = { r with issues := front.map (fun i => if finding.isOpen i then i.fix else i) ++ back } ∧
        (r.markAll copies).summary.fixed = r.summary.fixed + copies.length := by
  refine ⟨fun h => ?_, fun _ _ _ => markFixed_of_isOpen, fun hsome h => ?_, fun copies front back hcopies h hcount => ?_⟩
  · rw [markFixed_of_settled fun i hi => by rw [isOpen, h i hi, Bool.false_and]]
    exact congrArg (r, ·) (List.any_eq_false.2 fun i hi => by simp [h i hi])
  · rw [markFixed_of_settled h, List.any_eq_true.2 hsome]
  · have hall := markAll_eq hcopies h hcount
    refine ⟨hall, ?_⟩
    simp only [hall, summary, h, List.countP_append, countP_fixed_map, hcount]
    push_cast
    omega

def reported (description : String) (fixed : Bool) : Issue := { category := .code, description, fixed }

def repeated : Report where
  issues := [reported "leak" true, reported "leak" false, reported "idle" true, reported "leak" false]

theorem markFixed_marks_one_repeated :
    repeated.markFixed (reported "gone" false) = (repeated, false) ∧
    repeated.markFixed (reported "idle" false) = (repeated, true) ∧
    repeated.markFixed (reported "leak" false) = ({ repeated with
      issues := [reported "leak" true, reported "leak" true, reported "idle" true, reported "leak" false] }, true) ∧
    (repeated.markAll [reported "leak" false, reported "leak" false]).summary.fixed = 4 := by
  have h := repeated.markFixed_marks_one
  obtain ⟨-, hopen, -, hall⟩ := h (reported "leak" false)
  refine ⟨(h _).1 (by decide), (h _).2.2.1 (by decide) (by decide), ?_, ?_⟩
  · exact hopen [_] _ [_, _] rfl (by decide) (by decide)
  · exact (hall _ repeated.issues [] (by decide) rfl (by decide)).2

end Report

end BytecodeAudit
