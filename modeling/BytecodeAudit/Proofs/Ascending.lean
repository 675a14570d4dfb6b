import Mathlib.Data.List.Lex
import Mathlib.Data.List.Sort
import Mathlib.Data.Prod.Lex
import Mathlib.Data.String.Basic
import BytecodeAudit.Text.Basic

/-!
# Lists that ascend by a key

Several tables are lists that ascend by a key, and are changed in one way: the item with some key is
changed, or else a new one goes to its place (`put`). So there is still one item for each key
(`pairwise_put`), and the others stay (`mem_put_iff`).

Most keys are texts, which are ordered by their bytes (`Text.Rank`), and `Text.place` is `put` for
them (`place_eq_put`).
-/

namespace BytecodeAudit

namespace Text

lemma rank_injective : Function.Injective rank := fun _ _ h => congrArg Rank.text h

namespace Rank

variable {r s : Rank}

/-- What decides between two texts: their bytes, and where these are the same, the texts
themselves. -/
def key (r : Rank) : List ℕ ×ₗ String := toLex (r.bytes, r.text)

lemma key_injective : Function.Injective key :=
  fun _ _ h => congrArg rank (congrArg Prod.snd (toLex.injective h))

lemma key_le_key : r.key ≤ s.key ↔ r ≤ s := Prod.Lex.toLex_le_toLex

lemma key_lt_key : r.key < s.key ↔ r < s := Prod.Lex.toLex_lt_toLex

instance : LinearOrder Rank where
  le_refl r := key_le_key.1 le_rfl
  le_trans r s t h h' := key_le_key.1 ((key_le_key.2 h).trans (key_le_key.2 h'))
  le_antisymm r s h h' := key_injective (le_antisymm (key_le_key.2 h) (key_le_key.2 h'))
  le_total r s := (le_total r.key s.key).imp key_le_key.1 key_le_key.1
  lt_iff_le_not_ge r s := by rw [← key_lt_key, ← key_le_key, ← key_le_key, lt_iff_le_not_ge]
  toDecidableLE := inferInstance
  toDecidableLT := inferInstance
  toDecidableEq := inferInstance

end Rank

lemma rank_trichotomy (a b : String) : rank a < rank b ∨ a = b ∨ rank b < rank a := by
  rw [← rank_injective.eq_iff (a := a)]
  exact lt_trichotomy _ _

end Text

namespace Ascending

open List

variable {α κ : Type} [LinearOrder κ] {key : α → κ} {change : α → α} {new y : α} {xs : List α}

/-- Changes the item with the key of a new one, or else puts the new one in its place. -/
def put (key : α → κ) (change : α → α) (new : α) : List α → List α
  | [] => [new]
  | x :: xs =>
    if key x = key new then change x :: xs
    else if key new < key x then new :: x :: xs
    else x :: put key change new xs

lemma mem_of_mem_put (h : y ∈ put key change new xs) :
    y = new ∨ y ∈ xs ∨ ∃ x ∈ xs, key x = key new ∧ y = change x := by
  induction xs with
  | nil => exact .inl (mem_singleton.1 h)
  | cons x xs ih =>
    rw [put] at h
    split at h
    · grind
    split at h
    · grind
    · rcases mem_cons.1 h with rfl | h
      · exact .inr (.inl mem_cons_self)
      · grind

lemma mem_put_iff (hxs : xs.Pairwise fun a b => key a < key b) : y ∈ put key change new xs ↔
    (y = new ∧ ∀ x ∈ xs, key x ≠ key new) ∨ (∃ x ∈ xs, key x = key new ∧ y = change x) ∨
      (y ∈ xs ∧ key y ≠ key new) := by
  induction xs with
  | nil => simp [put]
  | cons x xs ih =>
    obtain ⟨hx, hrest⟩ := pairwise_cons.1 hxs
    rw [put]
    split
    · next heq =>
      have hother : ∀ z ∈ xs, key z ≠ key new := fun z hz => heq ▸ (hx z hz).ne'
      grind
    · next hne =>
      split
      · next hlt =>
        have hother : ∀ z ∈ xs, key z ≠ key new := fun z hz => (hlt.trans (hx z hz)).ne'
        grind
      · rw [mem_cons, ih hrest]
        grind

lemma pairwise_put (hchange : ∀ x, key (change x) = key x) (hxs : xs.Pairwise fun a b => key a < key b) :
    (put key change new xs).Pairwise fun a b => key a < key b := by
  induction xs with
  | nil => exact pairwise_singleton _ _
  | cons x xs ih =>
    obtain ⟨hx, hrest⟩ := pairwise_cons.1 hxs
    rw [put]
    split
    · exact pairwise_cons.2 ⟨fun y hy => hchange x ▸ hx y hy, hrest⟩
    · next hne =>
      split
      · next hlt => exact pairwise_cons.2 ⟨forall_mem_cons.2 ⟨hlt, fun y hy => hlt.trans (hx y hy)⟩, hxs⟩
      · next hlt =>
        refine pairwise_cons.2 ⟨fun y hy => ?_, ih hrest⟩
        rcases mem_of_mem_put hy with rfl | hy | ⟨z, hz, -, rfl⟩
        · exact lt_of_le_of_ne (not_lt.1 hlt) hne
        · exact hx y hy
        · exact hchange z ▸ hx z hz

lemma put_eq_append (h : ∀ x ∈ xs, key x < key new) : put key change new xs = xs ++ [new] := by
  induction xs with
  | nil => rfl
  | cons x xs ih =>
    obtain ⟨hx, hrest⟩ := forall_mem_cons.1 h
    rw [put, if_neg hx.ne, if_neg hx.asymm, ih hrest, cons_append]

lemma put_eq_self (hxs : xs.Pairwise fun a b => key a < key b) (hy : y ∈ xs) (hkey : key y = key new)
    (hchange : change y = y) : put key change new xs = xs := by
  induction xs with
  | nil => cases hy
  | cons x xs ih =>
    obtain ⟨hx, hrest⟩ := pairwise_cons.1 hxs
    rw [put]
    rcases mem_cons.1 hy with rfl | hy
    · rw [if_pos hkey, hchange]
    · have hlt := hkey ▸ hx y hy
      rw [if_neg hlt.ne, if_neg hlt.asymm, ih hrest hy]

lemma place_eq_put {β : Type} (name : String) (value : β) (change : β → β) (xs : List (String × β)) :
    Text.place name value change xs =
      put (fun x => Text.rank x.1) (fun x => (x.1, change x.2)) (name, value) xs := by
  induction xs with
  | nil => rfl
  | cons x xs ih =>
    obtain ⟨n, v⟩ := x
    simp only [Text.place, put, beq_iff_eq, Text.rank_injective.eq_iff, ih]

/-! ### Sorting -/

section Sorting

variable (key : α → κ) [DecidableRel fun a b => key a ≤ key b] (xs : List α)

lemma pairwise_mergeSort : (xs.mergeSort fun a b => key a ≤ key b).Pairwise fun a b => key a ≤ key b := by
  refine (List.pairwise_mergeSort (fun a b c => ?_) (fun a b => ?_) xs).imp of_decide_eq_true
  · simpa only [decide_eq_true_eq] using le_trans
  · simpa only [Bool.or_eq_true, decide_eq_true_eq] using le_total (key a) (key b)

lemma filter_mergeSort (k : κ) :
    (xs.mergeSort fun a b => key a ≤ key b).filter (key · = k) = xs.filter (key · = k) := by
  have hkeys : (xs.filter (key · = k)).Pairwise fun a b => decide (key a ≤ key b) = true := by
    refine pairwise_of_forall_mem_list fun a ha b hb => ?_
    simp only [mem_filter, decide_eq_true_eq] at ha hb ⊢
    exact (ha.2.trans hb.2.symm).le
  have hsub := (sublist_mergeSort (by simpa using fun a b c => le_trans) (by simpa using fun a b => le_total _ _)
    hkeys filter_sublist).filter (key · = k)
  rw [filter_filter, filter_congr fun a _ => Bool.and_self _] at hsub
  exact (hsub.eq_of_length ((mergeSort_perm _ _).filter _).length_eq.symm).symm

/-- Of two items with different keys, the one with the smaller key stands before the other. -/
lemma pair_sublist_mergeSort_iff {a b : α} (ha : a ∈ xs) (hb : b ∈ xs) (hne : key a ≠ key b) :
    [a, b].Sublist (xs.mergeSort fun a b => key a ≤ key b) ↔ key a < key b := by
  have hsorted := pairwise_mergeSort key xs
  refine ⟨fun h => lt_of_le_of_ne (by simpa using hsorted.sublist h) hne, fun hlt => ?_⟩
  have hperm := mergeSort_perm xs fun a b => decide (key a ≤ key b)
  obtain ⟨front, back, heq⟩ := append_of_mem (hperm.mem_iff.2 hb)
  have ha := hperm.mem_iff.2 ha
  rw [heq] at ha hsorted ⊢
  have hback := (pairwise_cons.1 (pairwise_append.1 hsorted).2.1).1
  rcases mem_append.1 ha with ha | ha
  · exact (singleton_sublist.2 ha).append (singleton_sublist.2 mem_cons_self)
  · rcases mem_cons.1 ha with rfl | ha
    · exact absurd rfl hne
    · exact absurd hlt (hback a ha).not_gt

end Sorting

end Ascending

namespace Text

open List

variable {names names' : List String}

lemma nodup_of_ascending (h : names.Pairwise (rank · < rank ·)) : names.Nodup :=
  h.imp fun hab heq => hab.ne (congrArg rank heq)

lemma eq_of_ascending (h : names.Pairwise (rank · < rank ·)) (h' : names'.Pairwise (rank · < rank ·))
    (hmem : ∀ x, x ∈ names ↔ x ∈ names') : names = names' := by
  refine List.Perm.eq_of_pairwise (fun a b _ _ hab hba => ?_) h h' ?_
  · exact absurd (hab.trans hba) (lt_irrefl _)
  · exact (perm_ext_iff_of_nodup (nodup_of_ascending h) (nodup_of_ascending h')).2 hmem

lemma pairwise_sorted (h : names.Nodup) :
    (names.mergeSort (rank · ≤ rank ·)).Pairwise (rank · < rank ·) := by
  have hle := Ascending.pairwise_mergeSort rank names
  exact (hle.and ((mergeSort_perm _ _).nodup_iff.2 h)).imp fun hab =>
    lt_of_le_of_ne hab.1 (rank_injective.ne hab.2)

lemma sorted_eq_of_perm (hperm : names.Perm names') (h : names'.Pairwise (rank · < rank ·)) :
    names.mergeSort (rank · ≤ rank ·) = names' := by
  have hsorted := pairwise_sorted (hperm.nodup_iff.2 (nodup_of_ascending h))
  exact eq_of_ascending hsorted h fun x => mem_mergeSort.trans hperm.mem_iff

end Text

end BytecodeAudit
