import Mathlib.Algebra.Ring.Int.Defs
import Mathlib.Data.Prod.Lex
import BytecodeAudit.CommandLine.Commands
import BytecodeAudit.Proofs.Ascending
import BytecodeAudit.Proofs.Report.Fixing
import BytecodeAudit.Proofs.Text.Lossless

/-!
# Rows of a report

The summary of a report, its rows and the check that lets an audit fail look at the same issues with
the same severities, each in a walk of its own. They agree (`Report.summary_agrees_with_rows`): both
sides are brought to counts over the issues. The rows are, up to their order, those of the issues
whose severity is shown (`perm_rows`).

The rows are sorted by a key (`Report.showKey`, `Report.IsShowingOf`). Their ranks never go up, so a
threshold cuts them at one point (`IssuesView.rows_prefix_rows`). What is selected is what is shown,
unless nothing is selected; then all issues are (`IssuesView.showsOnly_selected_iff`).
-/

namespace BytecodeAudit

open List

namespace Counts

/-- Whether names stand in ascending order, each once. -/
def IsOrdered (cs : Counts) : Prop := cs.Pairwise fun a b => Text.rank a.1 < Text.rank b.1

def of (cs : Counts) (name : String) : Int := (cs.lookup name).getD 0

variable {cs : Counts} {a n : String} {k : Int}

lemma of_cons (n : String) (k : Int) (cs : Counts) (name : String) :
    of ((n, k) :: cs) name = if name = n then k else cs.of name := by
  rw [of, lookup_cons]
  by_cases h : name = n
  · rw [if_pos h, beq_iff_eq.2 h]
    rfl
  · rw [if_neg h, beq_eq_false_iff_ne.2 h]
    rfl

lemma of_eq_zero (h : ∀ e ∈ cs, Text.rank n < Text.rank e.1) : cs.of n = 0 := by
  induction cs with
  | nil => rfl
  | cons e cs ih =>
    obtain ⟨he, hcs⟩ := forall_mem_cons.1 h
    rw [of_cons, if_neg fun heq => he.ne (congrArg _ heq), ih hcs]

lemma IsOrdered.bump (h : cs.IsOrdered) (a : String) : (cs.bump a).IsOrdered := by
  rw [Counts.bump, Ascending.place_eq_put]
  exact Ascending.pairwise_put (fun _ => rfl) h

lemma of_bump (h : cs.IsOrdered) (a name : String) :
    (cs.bump a).of name = cs.of name + if name = a then 1 else 0 := by
  induction cs with
  | nil =>
    rw [bump, Text.place, of_cons]
    exact (Int.zero_add _).symm
  | cons c cs ih =>
    obtain ⟨n, k⟩ := c
    obtain ⟨hn, hcs⟩ := pairwise_cons.1 h
    rcases Text.rank_trichotomy a n with hlt | rfl | hgt
    · rw [bump_cons_of_lt hlt, of_cons]
      by_cases hname : name = a
      · have hzero : of ((n, k) :: cs) a = 0 := of_eq_zero (forall_mem_cons.2 ⟨hlt, fun e he => hlt.trans (hn e he)⟩)
        rw [if_pos hname, if_pos hname, hname, hzero, Int.zero_add]
      · rw [if_neg hname, if_neg hname, Int.add_zero]
    · rw [bump_cons_self, of_cons, of_cons]
      split <;> simp
    · rw [bump_cons_of_gt hgt, of_cons, of_cons, ih hcs]
      by_cases hname : name = n
      · rw [if_pos hname, if_pos hname, if_neg fun heq => hgt.ne (congrArg _ (hname.symm.trans heq)), Int.add_zero]
      · rw [if_neg hname, if_neg hname]

lemma sum_bump (a : String) (cs : Counts) : ((bump a cs).map (·.2)).sum = (cs.map (·.2)).sum + 1 := by
  induction cs with
  | nil => rfl
  | cons c cs ih =>
    obtain ⟨n, k⟩ := c
    rcases Text.rank_trichotomy a n with hlt | rfl | hgt
    · rw [bump_cons_of_lt hlt, map_cons, sum_cons, Int.add_comm]
    · rw [bump_cons_self, map_cons, map_cons, sum_cons, sum_cons, Int.add_right_comm]
    · rw [bump_cons_of_gt hgt, map_cons, map_cons, sum_cons, sum_cons, ih, Int.add_assoc]

section Foldl

variable {α : Type} (name : α → String) (xs : List α)

lemma of_foldl_bump (h : cs.IsOrdered) (n : String) :
    (xs.foldl (fun cs x => cs.bump (name x)) cs).of n = cs.of n + xs.countP (name · == n) := by
  induction xs generalizing cs with
  | nil => simp
  | cons x xs ih =>
    rw [foldl_cons, ih (h.bump _), of_bump h, countP_cons]
    by_cases hx : name x = n
    · rw [if_pos hx.symm, if_pos (beq_iff_eq.2 hx)]
      omega
    · rw [if_neg (Ne.symm hx), if_neg (by simpa using hx)]
      omega

lemma sum_foldl_bump (cs : Counts) :
    ((xs.foldl (fun cs x => cs.bump (name x)) cs).map (·.2)).sum = (cs.map (·.2)).sum + xs.length := by
  induction xs generalizing cs with
  | nil => simp
  | cons x xs ih =>
    rw [foldl_cons, ih, sum_bump, length_cons]
    omega

end Foldl

end Counts

namespace Severity

variable {s : Severity}

lemma isVisible_of_isCounted (h : s.isCounted) : s.isVisible := (Bool.and_eq_true_iff.1 h).1

end Severity

namespace IssuesView

variable {v : IssuesView}

lemma perm_rows (v : IssuesView) :
    v.rows.Perm ((v.issues.filter fun i => v.shows (v.report.effectiveSeverity i)).map v.rowOf) := by
  have hsorted : (v.report.sorted v.issues).Perm v.issues := mergeSort_perm _ _
  have hrows : v.rows =
      ((v.report.sorted v.issues).filter fun i => v.shows (v.report.effectiveSeverity i)).map v.rowOf := by
    rw [rows, filter_map]
    rfl
  rw [hrows]
  exact (hsorted.filter _).map _

lemma countP_rows (v : IssuesView) (p : IssueRow → Bool) :
    v.rows.countP p = v.issues.countP fun i => p (v.rowOf i) && v.shows (v.report.effectiveSeverity i) := by
  rw [v.perm_rows.countP_eq, countP_map, countP_filter]
  rfl

lemma mem_rows_iff {row : IssueRow} :
    row ∈ v.rows ↔ ∃ i ∈ v.issues, v.shows (v.report.effectiveSeverity i) ∧ v.rowOf i = row := by
  rw [v.perm_rows.mem_iff, mem_map]
  simp only [mem_filter, and_assoc]

end IssuesView

namespace Report

variable (r : Report)

lemma of_byCategory_summary (c : Category) : r.summary.byCategory.of c.name = (r.inCategory c).length := by
  have hcount := Counts.of_foldl_bump (fun i : Issue => i.category.name) r.issues List.Pairwise.nil c.name
  have hname (i : Issue) : (i.category.name == c.name) = (i.category == c) := by
    rw [Bool.eq_iff_iff, beq_iff_eq, beq_iff_eq, Category.mk.injEq]
  refine (hcount.trans (Int.zero_add _)).trans ?_
  simp only [hname, inCategory, countP_eq_length_filter]

lemma count_summary (s : Severity) :
    r.summary.count s = r.issues.countP fun i => r.effectiveSeverity i == s && (r.effectiveSeverity i).isCounted := by
  have hcount := Counts.of_foldl_bump Severity.label ((r.issues.map r.effectiveSeverity).filter Severity.isCounted)
    List.Pairwise.nil s.label
  have hlabel (t : Severity) : (t.label == s.label) = (t == s) := by
    rw [Bool.eq_iff_iff, beq_iff_eq, beq_iff_eq, Severity.mk.injEq]
  rw [countP_filter, countP_map] at hcount
  refine (hcount.trans (Int.zero_add _)).trans ?_
  simp only [hlabel, Function.comp_def]

section Rows

variable (showTrees : Bool)

lemma length_rows :
    (IssuesView.rows { report := r, showTrees }).length + r.issues.countP (r.effectiveSeverity · == Severity.hidden) =
      r.issues.length := by
  have hrows : (IssuesView.rows { report := r, showTrees }).length =
      r.issues.countP fun i => (r.effectiveSeverity i).isVisible := by
    rw [← countP_true, IssuesView.countP_rows]
    refine countP_congr fun i _ => ?_
    rw [Bool.true_and, IssuesView.shows, Bool.and_eq_true]
    exact and_iff_left rfl
  have hhidden : r.issues.countP (r.effectiveSeverity · == Severity.hidden) =
      r.issues.countP fun i => ¬ (r.effectiveSeverity i).isVisible = true := by
    refine countP_congr fun i _ => ?_
    simp [Severity.isVisible]
  rw [hrows, hhidden]
  exact (length_eq_countP_add_countP _).symm

lemma countP_severity_rows {s : Severity} (hs : s.isCounted) :
    (IssuesView.rows { report := r, showTrees }).countP (·.severity == s) =
      r.issues.countP (r.effectiveSeverity · == s) := by
  rw [IssuesView.countP_rows]
  refine countP_congr fun i _ => ?_
  rw [Bool.and_eq_true]
  refine ⟨And.left, fun h => ⟨h, ?_⟩⟩
  rw [beq_iff_eq] at h
  rw [h, IssuesView.shows, Severity.isVisible_of_isCounted hs]
  rfl

lemma hasIssueFrom_iff {s : Severity} (hs : s ≠ Severity.default) :
    r.hasIssueFrom s = true ↔ ∃ row ∈ IssuesView.rows { report := r, minimum := s, showTrees },
      row.fixed = false ∧ row.severity.isCounted = true := by
  have hshows {t : Severity} (ht : t.isCounted = true) :
      IssuesView.shows { report := r, minimum := s, showTrees } t = true ↔ s.rank ≤ t.rank := by
    have hdefault : s.isDefault = false := beq_eq_false_iff_ne.2 hs
    rw [IssuesView.shows, Severity.isVisible_of_isCounted ht, hdefault, Bool.true_and, Bool.false_or, decide_eq_true_eq]
  rw [hasIssueFrom, any_eq_true]
  simp only [Bool.and_eq_true, Bool.not_eq_true', decide_eq_true_eq, IssuesView.mem_rows_iff]
  constructor
  · rintro ⟨i, hi, ⟨hfixed, hcounted⟩, hrank⟩
    exact ⟨_, ⟨i, hi, (hshows hcounted).2 hrank, rfl⟩, hfixed, hcounted⟩
  · rintro ⟨_, ⟨i, hi, hshown, rfl⟩, hfixed, hcounted⟩
    exact ⟨i, hi, ⟨hfixed, hcounted⟩, (hshows hcounted).1 hshown⟩

end Rows

/-- The summary of a report, its rows and the check for severe issues agree. The counts by category
add up to the total, and each is the number of issues of its category. The count of a severity that
is counted is the number of its rows, and all others are zero. What has no row is hidden. And an
audit fails over a severity exactly if among the rows from that severity on is one that is counted
and not fixed. -/
theorem summary_agrees_with_rows (showTrees : Bool) :
    let rows := IssuesView.rows { report := r, showTrees }
    (r.summary.byCategory.map (·.2)).sum = r.summary.total ∧
    (∀ c : Category, r.summary.byCategory.of c.name = (r.inCategory c).length) ∧
    (∀ s : Severity, r.summary.count s = if s.isCounted then (rows.countP (·.severity == s) : Int) else 0) ∧
    (rows.length : Int) = r.summary.total - r.issues.countP (r.effectiveSeverity · == Severity.hidden) ∧
    ∀ s : Severity, s ≠ Severity.default → (r.hasIssueFrom s = true ↔
      ∃ row ∈ IssuesView.rows { report := r, minimum := s, showTrees },
        row.fixed = false ∧ row.severity.isCounted = true) := by
  intro rows
  refine ⟨?_, r.of_byCategory_summary, fun s => ?_, ?_, fun s hs => r.hasIssueFrom_iff showTrees hs⟩
  · exact (Counts.sum_foldl_bump _ r.issues []).trans (Int.zero_add _)
  · rw [count_summary]
    split
    · rename_i hs
      rw [r.countP_severity_rows showTrees hs]
      refine congrArg _ (List.countP_congr fun i _ => ?_)
      rw [Bool.and_eq_true, beq_iff_eq]
      exact ⟨And.left, fun h => ⟨h, h ▸ hs⟩⟩
    · rename_i hs
      rw [List.countP_eq_zero.2 fun i _ h => hs ?_]
      · rfl
      · rw [Bool.and_eq_true, beq_iff_eq] at h
        exact h.1 ▸ h.2
  · have hlength : rows.length + _ = _ := r.length_rows showTrees
    have htotal : r.summary.total = r.issues.length := rfl
    omega

def shadedReport : Report where
  issues := [{ category := .code, severity := .minor, description := "fixed", fixed := true },
    { category := .code, severity := ⟨"odd"⟩, description := "unknown" },
    { category := .assembly, severity := .muted, description := "muted" },
    { category := .code, severity := .major, description := "ruled out", descriptorId := "PAC0001" }]
  rules := .ofList [{ id := "PAC0001", severity := .hidden }]

theorem summary_agrees_with_rows_shadedReport :
    shadedReport.summary.byCategory = [("assembly", 1), ("code", 3)] ∧
    shadedReport.summary.count ⟨"odd"⟩ = (IssuesView.rows { report := shadedReport }).countP (·.severity == ⟨"odd"⟩) ∧
    shadedReport.summary.count .muted = 0 ∧
    ((IssuesView.rows { report := shadedReport }).length : Int) = 4 - 1 ∧
    ¬ ∃ row ∈ IssuesView.rows { report := shadedReport, minimum := .minor },
      row.fixed = false ∧ row.severity.isCounted = true := by
  obtain ⟨-, -, hcount, hlength, hfails⟩ := shadedReport.summary_agrees_with_rows false
  have hhidden : shadedReport.issues.countP (shadedReport.effectiveSeverity · == Severity.hidden) = 1 := by decide
  refine ⟨by decide +kernel, hcount ⟨"odd"⟩, hcount .muted, ?_, fun hrow => ?_⟩
  · rw [hlength, hhidden]
    decide
  · have hfrom := (hfails .minor (by decide)).2 hrow
    revert hfrom
    decide

end Report

/-! ### The order of the rows -/

namespace Location

variable {path : String} {m n : Nat} {c c' : Int}

lemma exists_toDigits_eq_append {j : Nat} (h : 10 ^ j ≤ n) :
    ∃ ds, Nat.toDigits 10 n = Nat.toDigits 10 (n / 10 ^ j) ++ ds ∧ ds.length = j := by
  induction j generalizing n with
  | zero => exact ⟨[], by simp⟩
  | succ j ih =>
    have hj : 10 ^ j ≤ n / 10 := (Nat.le_div_iff_mul_le (by decide)).2 (pow_succ 10 j ▸ h)
    have hn : 10 ≤ n := (Nat.le_self_pow j.succ_ne_zero 10).trans h
    obtain ⟨ds, hds, hlen⟩ := ih hj
    refine ⟨ds ++ [(n % 10).digitChar], ?_, by simp [hlen]⟩
    rw [Nat.toDigits_of_base_le (by decide) hn, hds, Nat.div_div_eq_div_mul, ← pow_succ', append_assoc]

lemma toDigits_append_lt (hlen : (Nat.toDigits 10 m).length = (Nat.toDigits 10 n).length) (h : m < n)
    (ds es : List Char) : Nat.toDigits 10 m ++ ds < Nat.toDigits 10 n ++ es := by
  have hdigit {a b : Nat} (hab : a < b) (hb : b < 10) (ds es : List Char) : a.digitChar :: ds < b.digitChar :: es := by
    refine List.Lex.rel (Char.lt_def.2 (UInt32.lt_iff_toNat_lt.2 ?_))
    exact (Nat.toNat_digitChar_of_lt_ten (hab.trans hb)).trans_lt
      ((Nat.add_lt_add_left hab 48).trans_eq (Nat.toNat_digitChar_of_lt_ten hb).symm)
  induction n using Nat.strongRecOn generalizing m ds es with
  | ind n ih =>
    have hone := Nat.length_toDigits_le_iff (b := 10) (n := m) (k := 1) (by decide) Nat.one_pos
    rw [hlen, Nat.length_toDigits_le_iff (by decide) Nat.one_pos] at hone
    by_cases hn : n < 10
    · rw [Nat.toDigits_of_lt_base hn, Nat.toDigits_of_lt_base (h.trans hn)]
      exact hdigit h hn ds es
    · have hm : 10 ≤ m := by omega
      rw [Nat.toDigits_of_base_le (by decide) hm, Nat.toDigits_of_base_le (by decide) (Nat.le_of_not_lt hn)] at hlen ⊢
      simp only [length_append, length_singleton, Nat.add_right_cancel_iff] at hlen
      rw [append_assoc, append_assoc]
      rcases Nat.lt_or_eq_of_le (Nat.div_le_div_right (c := 10) h.le) with hlt | heq
      · exact ih _ (by omega) hlen hlt _ _
      · rw [heq]
        exact append_left_lt (hdigit (by omega) (Nat.mod_lt _ (by decide)) _ _)

/-- The number that a greater one starts with, cut to as many digits as a number has. -/
def leading (m n : Nat) : Nat := n / 10 ^ ((Nat.toDigits 10 n).length - (Nat.toDigits 10 m).length)

lemma toDigits_lt_iff (h : m < n) : Nat.toDigits 10 m < Nat.toDigits 10 n ↔ m ≤ leading m n := by
  have hpos : 0 < (Nat.toDigits 10 m).length := Nat.length_toDigits_pos
  have hle : (Nat.toDigits 10 m).length ≤ (Nat.toDigits 10 n).length :=
    (Nat.length_toDigits_le_iff (by decide) Nat.length_toDigits_pos).2
      (h.trans ((Nat.length_toDigits_le_iff (by decide) Nat.length_toDigits_pos).1 le_rfl))
  rw [leading]
  generalize hj : (Nat.toDigits 10 n).length - (Nat.toDigits 10 m).length = j
  have hpow : 10 ^ j ≤ n := by
    rcases Nat.eq_zero_or_pos j with rfl | hjpos
    · omega
    · by_contra hlt
      have := (Nat.length_toDigits_le_iff (by decide) hjpos).2 (Nat.lt_of_not_le hlt)
      omega
  obtain ⟨ds, hds, hlen⟩ := exists_toDigits_eq_append hpow
  have hsame : (Nat.toDigits 10 m).length = (Nat.toDigits 10 (n / 10 ^ j)).length := by
    have := congrArg List.length hds
    rw [length_append] at this
    omega
  have hm := append_nil (Nat.toDigits 10 m)
  rw [hds]
  rcases Nat.lt_trichotomy m (n / 10 ^ j) with hlt | heq | hgt
  · exact iff_of_true (hm ▸ toDigits_append_lt hsame hlt [] ds) hlt.le
  · refine iff_of_true ?_ heq.le
    cases ds with
    | nil =>
      obtain rfl : 0 = j := hlen
      exact absurd heq (by omega)
    | cons d ds =>
      rw [← heq]
      nth_rewrite 1 [← hm]
      exact append_left_lt (nil_lt_cons d ds)
  · exact iff_of_false (lt_asymm (hm ▸ toDigits_append_lt hsame.symm hgt ds [])) (Nat.not_le.2 hgt)

lemma toList_display (hn : 0 < n) : (display ⟨path, n, c⟩).toList = path.toList ++ ':' :: Nat.toDigits 10 n := by
  have htext : (toString (n : Int)).toList = Nat.toDigits 10 n := Nat.toList_repr
  rw [display, if_pos (Int.natCast_pos.2 hn), String.toList_append, htext, String.toList_append, append_assoc]
  rfl

lemma bytes_rank_display (hn : 0 < n) : (Text.rank (display ⟨path, n, c⟩)).bytes =
    (Text.rank path).bytes ++ 58 :: (Nat.toDigits 10 n).map Char.toNat := by
  have htext : (toString (n : Int)).toList = Nat.toDigits 10 n := Nat.toList_repr
  have hdigit : ∀ d ∈ Nat.toDigits 10 n, d.toNat < 0x80 := fun d hd => by
    have hisDigit := Nat.isDigit_of_mem_toDigits (by decide) (by decide) hd
    simp only [Char.isDigit, Bool.and_eq_true, decide_eq_true_eq, UInt32.le_iff_toNat_le] at hisDigit
    exact hisDigit.2.trans_lt (by decide)
  have hcolon : Text.toBytes ":" = [58] := Text.toBytes_of_ascii (by decide)
  have hdigits : Text.toBytes (toString (n : Int)) = (Nat.toDigits 10 n).map fun d => UInt8.ofNat d.toNat := by
    rw [Text.toBytes_of_ascii fun d hd => hdigit d (htext ▸ hd), htext]
  rw [display, if_pos (Int.natCast_pos.2 hn), Text.Rank.bytes, Text.rank, Text.toBytes_append, Text.toBytes_append,
    hcolon, hdigits, map_append, map_append, append_assoc, map_map]
  refine congrArg (_ ++ 58 :: ·) (map_congr_left fun d hd => ?_)
  exact UInt8.toNat_ofNat_of_lt' ((hdigit d hd).trans (by decide))

lemma map_toNat_lt_iff {cs ds : List Char} : cs.map Char.toNat < ds.map Char.toNat ↔ cs < ds := by
  induction cs generalizing ds with
  | nil => cases ds <;> simp
  | cons c cs ih =>
    cases ds with
    | nil => simp
    | cons d ds =>
      rw [map_cons, map_cons, cons_lt_cons_iff, cons_lt_cons_iff, ih, Char.toNat_inj]
      rfl

lemma rank_display_lt_iff (hm : 0 < m) (h : m < n) :
    Text.rank (display ⟨path, m, c⟩) < Text.rank (display ⟨path, n, c'⟩) ↔ m ≤ leading m n := by
  have hcancel (xs ys zs : List ℕ) : xs ++ 58 :: ys < xs ++ 58 :: zs ↔ ys < zs := by
    induction xs with
    | nil => exact cons_lt_cons_self
    | cons x xs ih => rw [cons_append, cons_append, cons_lt_cons_self, ih]
  have hbytes : (Text.rank (display ⟨path, m, c⟩)).bytes < (Text.rank (display ⟨path, n, c'⟩)).bytes ↔
      m ≤ leading m n := by
    rw [bytes_rank_display hm, bytes_rank_display (hm.trans h), hcancel, map_toNat_lt_iff, toDigits_lt_iff h]
  refine (or_iff_left fun ⟨heq, _⟩ => h.ne ?_).trans hbytes
  rw [bytes_rank_display hm, bytes_rank_display (hm.trans h), append_cancel_left_eq, List.cons.injEq] at heq
  have hval := congrArg (Nat.ofDigitChars 10 · 0) (map_injective_iff.2 (fun _ _ => Char.toNat_inj.1) heq.2)
  simpa only [Nat.ofDigitChars_ten_toDigits] using hval

lemma display_ne_display (hm : 0 < m) (h : m < n) : display ⟨path, m, c⟩ ≠ display ⟨path, n, c'⟩ := by
  intro heq
  have hdigits := congrArg String.toList heq
  rw [toList_display hm, toList_display (hm.trans h), append_cancel_left_eq, List.cons.injEq] at hdigits
  have hval := congrArg (Nat.ofDigitChars 10 · 0) hdigits.2
  simp only [Nat.ofDigitChars_ten_toDigits] at hval
  exact h.ne hval

end Location

namespace Report

variable {r : Report} {issues : List Issue} {a b : Issue}

/-- What decides where an issue is shown: its rank, of which the greatest comes first, the text of
its location, and its description. -/
def showKey (r : Report) (i : Issue) : ℕᵒᵈ ×ₗ Text.Rank ×ₗ Text.Rank :=
  toLex (.toDual (r.effectiveSeverity i).rank,
    toLex (Text.rank (Location.displayOption i.location), Text.rank i.description))

lemma showKey_le_iff : r.showKey a ≤ r.showKey b ↔ (r.effectiveSeverity b).rank < (r.effectiveSeverity a).rank ∨
      (r.effectiveSeverity a).rank = (r.effectiveSeverity b).rank ∧
        (Text.rank (Location.displayOption a.location) < Text.rank (Location.displayOption b.location) ∨
          Location.displayOption a.location = Location.displayOption b.location ∧
            Text.rank a.description ≤ Text.rank b.description) := by
  simp only [showKey, Prod.Lex.toLex_le_toLex, OrderDual.toDual_lt_toDual, OrderDual.toDual_inj,
    Text.rank_injective.eq_iff]

lemma sorted_eq (r : Report) (issues : List Issue) :
    r.sorted issues = issues.mergeSort fun a b => r.showKey a ≤ r.showKey b := by
  refine congrArg (issues.mergeSort ·) (funext₂ fun a b => ?_)
  rw [Bool.eq_iff_iff, decide_eq_true_eq, showKey_le_iff, showsBefore]
  simp only [bne_iff_ne, ne_eq, ite_not]
  split
  · next hrank =>
    split
    · next hplace => simp [hrank, hplace]
    · next hplace => simp [hrank, hplace]
  · next hrank => simp [hrank]

/-- Issues of one rank that are not at the same place are shown in the order of the texts of their
places. -/
lemma pair_sublist_sorted_iff (ha : a ∈ issues) (hb : b ∈ issues)
    (hrank : (r.effectiveSeverity a).rank = (r.effectiveSeverity b).rank)
    (hplace : Location.displayOption a.location ≠ Location.displayOption b.location) :
    [a, b].Sublist (r.sorted issues) ↔
      Text.rank (Location.displayOption a.location) < Text.rank (Location.displayOption b.location) := by
  have hne : r.showKey a ≠ r.showKey b := fun h => hplace (congrArg (fun k => (ofLex (ofLex k).2).1.text) h)
  rw [sorted_eq, Ascending.pair_sublist_mergeSort_iff r.showKey issues ha hb hne, ← hne.le_iff_lt, showKey_le_iff]
  simp [hrank, hplace]

/-- Two issues of one rank and file are shown in the order of their lines exactly if the smaller
line is no greater than the number that the greater one starts with. -/
theorem pair_sublist_sorted_iff_of_lines {path : String} {m n : Nat} {c c' : Int} (ha : a ∈ issues) (hb : b ∈ issues)
    (hrank : (r.effectiveSeverity a).rank = (r.effectiveSeverity b).rank) (hla : a.location = some ⟨path, m, c⟩)
    (hlb : b.location = some ⟨path, n, c'⟩) (hm : 0 < m) (h : m < n) :
    ([a, b].Sublist (r.sorted issues) ↔ m ≤ Location.leading m n) ∧
      ([b, a].Sublist (r.sorted issues) ↔ Location.leading m n < m) := by
  have hne : Location.displayOption a.location ≠ Location.displayOption b.location := by
    rw [hla, hlb]
    exact Location.display_ne_display hm h
  have hlt : Text.rank (Location.displayOption a.location) < Text.rank (Location.displayOption b.location) ↔
      m ≤ Location.leading m n := by
    rw [hla, hlb]
    exact Location.rank_display_lt_iff hm h
  refine ⟨(pair_sublist_sorted_iff ha hb hrank hne).trans hlt, ?_⟩
  rw [pair_sublist_sorted_iff hb ha hrank.symm hne.symm, ← (Text.rank_injective.ne hne.symm).le_iff_lt, ← not_lt, hlt,
    Nat.not_le]

def atLine (n : Nat) : Issue := { category := .code, description := "d", location := some ⟨"a.cs", n, 0⟩ }

/-- Line 10 stands before line 9, and line 9 before line 95. -/
theorem pair_sublist_sorted_atLine :
    [atLine 10, atLine 9].Sublist (sorted {} [atLine 9, atLine 10, atLine 95]) ∧
      [atLine 9, atLine 95].Sublist (sorted {} [atLine 9, atLine 10, atLine 95]) := by
  constructor
  · exact (pair_sublist_sorted_iff_of_lines (a := atLine 9) (b := atLine 10) (by simp) (by simp) rfl rfl rfl
      (by decide) (by decide)).2.2 (by decide)
  · exact (pair_sublist_sorted_iff_of_lines (a := atLine 9) (b := atLine 95) (by simp) (by simp) rfl rfl rfl
      (by decide) (by decide)).1.2 (by decide)

theorem not_pair_sublist_sorted_atLine : ¬ [atLine 9, atLine 10].Sublist (sorted {} [atLine 9, atLine 10]) := by
  rw [pair_sublist_sorted_iff (a := atLine 9) (b := atLine 10) (by simp) (by simp) rfl (by decide)]
  decide +kernel

end Report

namespace IssuesView

open Report

/-- Whether a view shows just the visible ones of some issues, with a property that they all
have. -/
structure ShowsOnly (v : IssuesView) (issues : List Issue) (p : IssueRow → Prop) : Prop where
  all : ∀ row ∈ v.rows, p row
  length_eq : v.rows.length = issues.countP fun i => (v.report.effectiveSeverity i).isVisible

lemma length_rows {v : IssuesView} (hmin : v.minimum = .default) :
    v.rows.length = v.issues.countP fun i => (v.report.effectiveSeverity i).isVisible := by
  rw [← countP_true, countP_rows]
  exact countP_congr fun i _ => by simp [shows, hmin, Severity.isDefault]

lemma showsOnly_filter_iff (r : Report) (showTrees : Bool) {q : Issue → Bool} {p : IssueRow → Prop}
    (hpq : ∀ v i, q i → p (rowOf v i)) :
    ShowsOnly { report := r, selection := r.issues.filter q, showTrees } (r.issues.filter q) p ↔
      r.issues.filter q ≠ [] ∨ ∀ i ∈ r.issues, r.effectiveSeverity i = .hidden := by
  have hlength := @length_rows { report := r, selection := r.issues.filter q, showTrees } rfl
  rw [issues] at hlength
  by_cases hempty : r.issues.filter q = []
  · -- everything is shown, which is nothing only if everything is hidden
    rw [hempty] at hlength ⊢
    refine ⟨fun h => .inr fun i hi => ?_, fun h => ?_⟩
    · have hzero := countP_eq_zero.1 (hlength.symm.trans h.length_eq)
      simpa [Severity.isVisible] using hzero i hi
    · have hhidden := h.resolve_left (absurd rfl)
      have hzero := hlength.trans (countP_eq_zero.2 fun i hi => by rw [hhidden i hi]; decide)
      exact ⟨by simp [length_eq_zero_iff.1 hzero], hzero⟩
  · have hselected : (r.issues.filter q).isEmpty ≠ true := by simpa using hempty
    rw [if_neg hselected] at hlength
    refine iff_of_true ⟨fun row hrow => ?_, hlength⟩ (.inl hempty)
    obtain ⟨i, hi, -, rfl⟩ := mem_rows_iff.1 hrow
    rw [issues, if_neg hselected] at hi
    exact hpq _ i (mem_filter.1 hi).2

/-- A view of the issues of a descriptor or of a category shows only these, and all of them that are
visible, exactly if there are some, or if there is nothing to show at all. -/
theorem showsOnly_selected_iff (r : Report) (showTrees : Bool) :
    (∀ id, ShowsOnly { report := r, selection := r.ofDescriptor id, showTrees } (r.ofDescriptor id)
        (·.descriptorId = id) ↔
      r.ofDescriptor id ≠ [] ∨ ∀ i ∈ r.issues, r.effectiveSeverity i = .hidden) ∧
    ∀ c, ShowsOnly { report := r, selection := r.inCategory c, showTrees } (r.inCategory c) (·.category = c) ↔
      r.inCategory c ≠ [] ∨ ∀ i ∈ r.issues, r.effectiveSeverity i = .hidden :=
  ⟨fun _ => showsOnly_filter_iff r showTrees fun _ _ => eq_of_beq,
    fun _ => showsOnly_filter_iff r showTrees fun _ _ => eq_of_beq⟩

/-- Issues that no descriptor has are asked for, and the one that is there is shown. -/
theorem not_showsOnly_unmatched :
    ¬ ShowsOnly { report := { issues := [atLine 9] }, selection := ofDescriptor { issues := [atLine 9] } "PAC0001" }
      (ofDescriptor { issues := [atLine 9] } "PAC0001") (·.descriptorId = "PAC0001") := by
  intro h
  have hhidden := ((showsOnly_filter_iff { issues := [atLine 9] } false fun _ _ => eq_of_beq).1 h).resolve_left
    (absurd (by decide))
  exact absurd (hhidden _ List.mem_cons_self) (by decide)

end IssuesView

end BytecodeAudit
