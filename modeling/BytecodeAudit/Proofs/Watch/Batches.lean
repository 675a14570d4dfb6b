import Mathlib.Data.List.Induction
import BytecodeAudit.Proofs.Ascending
import BytecodeAudit.Watch.Basic

/-!
# Watching loses no change

A watcher takes events and polls in any order, and hands out batches of paths. What is pending is
each relevant path that changed since the last batch (`mem_pending_iff`). So a poll hands out
nothing, or all paths that changed since the last batch, once every one is quiet (`HandsOut`). A
path that is pending stays so until the next batch, which it is part of, and is in no later one
unless it changes again (`batches_of_mem_pending`).
-/

namespace BytecodeAudit

open List

lemma FileEvent.isChange_iff {e : FileEvent} :
    e.isChange = true ↔ ∃ c ∈ e.changes, c ∈ [FileChange.write, .create, .remove, .rename] := by
  rw [isChange, any_eq_true]
  refine exists_congr fun c => and_congr_right fun _ => ?_
  cases c <;> decide

def WatchInput.time : WatchInput → Instant
  | .event now _ => now
  | .poll now => now

/-- Whether the clock never goes back over some inputs. -/
def AreChronological (xs : List WatchInput) : Prop := xs.Pairwise fun x y => x.time.nanos ≤ y.time.nanos

lemma Instant.since_nanos_le {now t : Instant} (h : t.nanos ≤ now.nanos) : (now.since t).nanos ≤ now.nanos - t.nanos := by
  simp only [since, Duration.clamp]
  omega

lemma Instant.le_since_nanos {now t : Instant} {n : Int} (hn : n ≤ Duration.maxNanos) (h : n ≤ now.nanos - t.nanos) :
    n ≤ (now.since t).nanos := by
  simp only [since, Duration.clamp]
  omega

namespace Watcher

variable {w : Watcher} {xs ys zs : List WatchInput} {path p : String} {now t : Instant}

/-! ### Pending paths -/

def AreAscending (pending : List (String × Instant)) : Prop :=
  pending.Pairwise fun a b => Text.rank a.1 < Text.rank b.1

variable {pending : List (String × Instant)}

lemma mem_note (h : AreAscending pending) :
    (p, t) ∈ note path now pending ↔ p = path ∧ t = now ∨ p ≠ path ∧ (p, t) ∈ pending := by
  rw [note, Ascending.place_eq_put, Ascending.mem_put_iff h]
  simp only [ne_eq, Text.rank_injective.eq_iff]
  grind

lemma areAscending_note (h : AreAscending pending) :
    AreAscending (note path now pending) := by
  rw [note, Ascending.place_eq_put]
  exact Ascending.pairwise_put (fun _ => rfl) h

/-! ### Inputs one after another -/

def after (w : Watcher) (xs : List WatchInput) : Watcher := (w.feed xs).2

def batches (w : Watcher) (xs : List WatchInput) : List (List String) := (w.feed xs).1

def polled (w : Watcher) (xs : List WatchInput) (now : Instant) : List String := ((w.after xs).takeReady now).1

lemma takeReady_cases (w : Watcher) (now : Instant) : w.takeReady now = ([], w) ∨
      w.isSettling now = false ∧ w.pending ≠ [] ∧ w.takeReady now = (w.pending.map (·.1), { w with pending := [] }) := by
  rw [takeReady]
  split
  · exact .inl rfl
  · next hsettling =>
    by_cases hpending : w.pending = []
    · left
      obtain ⟨target, roots, included, excluded, debounce, pending⟩ := w
      cases hpending
      rfl
    · exact .inr ⟨Bool.eq_false_iff.2 hsettling, hpending, rfl⟩

lemma feed_append (w : Watcher) (xs ys : List WatchInput) :
    w.feed (xs ++ ys) = (w.batches xs ++ (w.after xs).batches ys, (w.after xs).after ys) := by
  induction xs generalizing w with
  | nil => rfl
  | cons x xs ih =>
    cases x with
    | event now e => exact ih (w.observe now e)
    | poll now =>
      rw [cons_append, feed, batches, after, feed]
      dsimp only
      rw [ih]
      split <;> rfl

lemma after_append (w : Watcher) (xs ys : List WatchInput) : w.after (xs ++ ys) = (w.after xs).after ys := by
  rw [after, feed_append]

lemma batches_append (w : Watcher) (xs ys : List WatchInput) :
    w.batches (xs ++ ys) = w.batches xs ++ (w.after xs).batches ys := by
  rw [batches, feed_append]

lemma after_cons_poll (w : Watcher) (now : Instant) (xs : List WatchInput) :
    w.after (.poll now :: xs) = (w.takeReady now).2.after xs := rfl

lemma batches_cons_poll (w : Watcher) (now : Instant) (xs : List WatchInput) :
    w.batches (.poll now :: xs) = if (w.takeReady now).1 = [] then (w.takeReady now).2.batches xs
      else (w.takeReady now).1 :: (w.takeReady now).2.batches xs := by
  rw [batches, feed]
  simp only [List.isEmpty_iff]
  rfl

lemma exists_after_eq (w : Watcher) (xs : List WatchInput) : ∃ pending, w.after xs = { w with pending } := by
  induction xs generalizing w with
  | nil => exact ⟨w.pending, rfl⟩
  | cons x xs ih =>
    cases x with
    | event now e =>
      have hobserve : ∃ pending, w.observe now e = { w with pending } := by
        rw [observe]
        split <;> exact ⟨_, rfl⟩
      obtain ⟨pending, hpending⟩ := hobserve
      obtain ⟨pending', hpending'⟩ := ih (w.observe now e)
      refine ⟨pending', hpending'.trans ?_⟩
      rw [hpending]
    | poll now =>
      rw [after_cons_poll]
      rcases w.takeReady_cases now with h | ⟨-, -, h⟩ <;> rw [h]
      · exact ih w
      · exact ih { w with pending := [] }

lemma isRelevant_after (w : Watcher) (xs : List WatchInput) : (w.after xs).isRelevant = w.isRelevant := by
  obtain ⟨pending, h⟩ := w.exists_after_eq xs
  rw [h]
  rfl

lemma debounce_after (w : Watcher) (xs : List WatchInput) : (w.after xs).debounce = w.debounce := by
  obtain ⟨pending, h⟩ := w.exists_after_eq xs
  rw [h]

lemma areAscending_observe (h : AreAscending w.pending) (now : Instant) (e : FileEvent) :
    AreAscending (w.observe now e).pending := by
  rw [observe]
  split
  · exact areAscending_note h
  · exact h

lemma areAscending_after (h : AreAscending w.pending) (xs : List WatchInput) : AreAscending (w.after xs).pending := by
  induction xs generalizing w with
  | nil => exact h
  | cons x xs ih =>
    cases x with
    | event now e => exact ih (areAscending_observe h now e)
    | poll now =>
      rw [after_cons_poll]
      rcases w.takeReady_cases now with hready | ⟨-, -, hready⟩ <;> rw [hready]
      · exact ih h
      · exact ih (w := { w with pending := [] }) List.Pairwise.nil

/-! ### Changes -/

/-- Whether an input tells that the content of a relevant path may have changed. -/
def IsChangeOf (w : Watcher) (path : String) (t : Instant) (x : WatchInput) : Prop :=
  ∃ e : FileEvent, x = .event t e ∧ e.path = path ∧
    (∃ c ∈ e.changes, c ∈ [FileChange.write, .create, .remove, .rename]) ∧ w.isRelevant path = true

def Changes (w : Watcher) (xs : List WatchInput) (path : String) (t : Instant) : Prop := ∃ x ∈ xs, w.IsChangeOf path t x

def IsLastChange (w : Watcher) (xs : List WatchInput) (path : String) (t : Instant) : Prop :=
  ∃ ys x zs, xs = ys ++ x :: zs ∧ w.IsChangeOf path t x ∧ ∀ u, ¬ w.Changes zs path u

lemma isChangeOf_event_iff {e : FileEvent} :
    w.IsChangeOf path t (.event now e) ↔ (e.isChange && w.isRelevant e.path) ∧ path = e.path ∧ t = now := by
  rw [Bool.and_eq_true, FileEvent.isChange_iff]
  constructor
  · rintro ⟨e', heq, rfl, hchanges, hrelevant⟩
    obtain ⟨rfl, rfl⟩ := WatchInput.event.inj heq
    exact ⟨⟨hchanges, hrelevant⟩, rfl, rfl⟩
  · rintro ⟨⟨hchanges, hrelevant⟩, rfl, rfl⟩
    exact ⟨e, rfl, rfl, hchanges, hrelevant⟩

lemma not_isChangeOf_poll : ¬ w.IsChangeOf path t (.poll now) := by
  rintro ⟨e, heq, -⟩
  cases heq

lemma isChangeOf_after (w : Watcher) (xs : List WatchInput) : (w.after xs).IsChangeOf = w.IsChangeOf := by
  funext path t x
  rw [IsChangeOf, IsChangeOf, isRelevant_after]

lemma changes_after (w : Watcher) (xs : List WatchInput) : (w.after xs).Changes = w.Changes := by
  funext ys path t
  rw [Changes, Changes, isChangeOf_after]

lemma isLastChange_after (w : Watcher) (xs : List WatchInput) : (w.after xs).IsLastChange = w.IsLastChange := by
  funext ys path t
  rw [IsLastChange, IsLastChange, isChangeOf_after, changes_after]

lemma changes_concat_iff {x : WatchInput} :
    w.Changes (xs ++ [x]) path t ↔ w.Changes xs path t ∨ w.IsChangeOf path t x := by
  simp only [Changes, mem_append, mem_singleton, or_and_right, exists_or, exists_eq_left]

lemma isLastChange_concat_iff {x : WatchInput} : w.IsLastChange (xs ++ [x]) path t ↔
      w.IsChangeOf path t x ∨ w.IsLastChange xs path t ∧ ∀ u, ¬ w.IsChangeOf path u x := by
  constructor
  · rintro ⟨ys, y, zs, heq, hy, hzs⟩
    rcases eq_nil_or_concat zs with rfl | ⟨zs, z, rfl⟩
    · obtain ⟨-, hlast⟩ := append_inj' heq rfl
      exact .inl (singleton_inj.1 hlast ▸ hy)
    · rw [concat_eq_append, ← cons_append, ← append_assoc] at heq
      obtain ⟨rfl, hlast⟩ := append_inj' heq rfl
      obtain rfl := singleton_inj.1 hlast
      simp only [concat_eq_append, changes_concat_iff, not_or] at hzs
      exact .inr ⟨⟨ys, y, zs, rfl, hy, fun u => (hzs u).1⟩, fun u => (hzs u).2⟩
  · rintro (hx | ⟨⟨ys, y, zs, rfl, hy, hzs⟩, hx⟩)
    · exact ⟨xs, x, [], rfl, hx, fun u hu => by simp [Changes] at hu⟩
    · refine ⟨ys, y, zs ++ [x], by simp, hy, fun u hu => ?_⟩
      exact (changes_concat_iff.1 hu).elim (hzs u) (hx u)

lemma exists_isLastChange_iff : (∃ t, w.IsLastChange xs path t) ↔ ∃ t, w.Changes xs path t := by
  constructor
  · rintro ⟨t, ys, x, zs, rfl, hx, -⟩
    exact ⟨t, x, by simp, hx⟩
  · rintro ⟨t, h⟩
    induction xs using reverseRecOn generalizing t with
    | nil =>
      obtain ⟨x, hx, -⟩ := h
      cases hx
    | append_singleton xs x ih =>
      by_cases hx : ∃ u, w.IsChangeOf path u x
      · obtain ⟨u, hu⟩ := hx
        exact ⟨u, isLastChange_concat_iff.2 (.inl hu)⟩
      · rw [not_exists] at hx
        obtain ⟨u, hu⟩ := ih t ((changes_concat_iff.1 h).resolve_right (hx t))
        exact ⟨u, isLastChange_concat_iff.2 (.inr ⟨hu, hx⟩)⟩

/-! ### What is pending -/

lemma areAscending_of_eq_nil (hw : w.pending = []) : AreAscending w.pending := by
  rw [hw]
  exact List.Pairwise.nil

lemma mem_pending_observe (h : AreAscending w.pending) {e : FileEvent} : (path, t) ∈ (w.observe now e).pending ↔
      w.IsChangeOf path t (.event now e) ∨ (path, t) ∈ w.pending ∧ ∀ u, ¬ w.IsChangeOf path u (.event now e) := by
  simp only [isChangeOf_event_iff]
  rw [observe]
  split
  · next hchange =>
    rw [mem_note h]
    simp only [hchange, true_and, not_and]
    grind
  · next hchange => simp [hchange]

/-- While no batch is handed out, the paths that changed are pending, each with the time of its last
change. -/
lemma mem_pending_iff (hw : w.pending = []) (hxs : w.batches xs = []) :
    (path, t) ∈ (w.after xs).pending ↔ w.IsLastChange xs path t := by
  induction xs using reverseRecOn generalizing path t with
  | nil =>
    have hnone : ¬ w.IsLastChange [] path t := by
      rintro ⟨ys, x, zs, heq, -⟩
      simp at heq
    simp [after, feed, hw, hnone]
  | append_singleton xs x ih =>
    rw [batches_append, append_eq_nil_iff] at hxs
    have ih : ∀ {path t}, (path, t) ∈ (w.after xs).pending ↔ w.IsLastChange xs path t := fun {_ _} => ih hxs.1
    rw [after_append, isLastChange_concat_iff]
    cases x with
    | event now e =>
      refine (mem_pending_observe (areAscending_after (areAscending_of_eq_nil hw) xs)).trans ?_
      rw [isChangeOf_after, ih]
    | poll now =>
      -- a poll that hands out nothing leaves the watcher as it is, also when it finds nothing pending
      have hready := (w.after xs).batches_cons_poll now []
      rw [hxs.2] at hready
      have hunchanged : (w.after xs).takeReady now = ([], w.after xs) := by
        refine ((w.after xs).takeReady_cases now).resolve_right ?_
        rintro ⟨-, hpending, heq⟩
        simp [heq, hpending] at hready
      rw [after_cons_poll, hunchanged]
      simp only [not_isChangeOf_poll, false_or, not_false_eq_true, implies_true, and_true]
      exact ih

/-! ### What a poll hands out -/

/-- Whether some inputs are those since the last batch. -/
def IsSince (w : Watcher) (xs ys : List WatchInput) : Prop :=
  ∃ zs, xs = zs ++ ys ∧ (w.after zs).batches ys = [] ∧
    (zs = [] ∨ ∃ zs' now, zs = zs' ++ [.poll now] ∧ w.polled zs' now ≠ [])

lemma exists_isSince (w : Watcher) (xs : List WatchInput) : ∃ ys, w.IsSince xs ys := by
  induction xs using reverseRecOn with
  | nil => exact ⟨[], [], rfl, rfl, .inl rfl⟩
  | append_singleton xs x ih =>
    by_cases hx : (w.after xs).batches [x] = []
    · obtain ⟨ys, zs, rfl, hys, hzs⟩ := ih
      refine ⟨ys ++ [x], zs, by simp, ?_, hzs⟩
      rw [batches_append, hys, ← after_append, hx]
      rfl
    · cases x with
      | event now e => exact absurd rfl hx
      | poll now =>
        refine ⟨[], xs ++ [.poll now], by simp, rfl, .inr ⟨xs, now, rfl, fun hnone => hx ?_⟩⟩
        rw [batches_cons_poll]
        exact if_pos hnone

lemma IsSince.unique (h : w.IsSince xs ys) (h' : w.IsSince xs zs) : ys = zs := by
  -- a longer end would hold the batch that the shorter one starts behind
  have hle : ∀ {ys zs}, w.IsSince xs ys → w.IsSince xs zs → zs.length ≤ ys.length := by
    rintro ys zs ⟨us, rfl, -, hus⟩ ⟨vs, heq, hzs, -⟩
    rcases append_eq_append_iff.1 heq with ⟨as, rfl, rfl⟩ | ⟨as, rfl, rfl⟩
    · simp
    rcases eq_nil_or_concat as with rfl | ⟨as, x, rfl⟩
    · simp
    obtain ⟨us', now, hlast, hbatch⟩ := hus.resolve_left (by simp)
    rw [concat_eq_append, ← append_assoc] at hlast
    obtain ⟨rfl, hx⟩ := append_inj' hlast rfl
    obtain rfl := singleton_inj.1 hx
    have hmore : (w.after (vs ++ as)).batches (.poll now :: ys) ≠ [] := by
      rw [batches_cons_poll]
      exact fun hnone => cons_ne_nil _ _ ((if_neg hbatch).symm.trans hnone)
    rw [concat_eq_append, append_assoc, batches_append, ← after_append, append_eq_nil_iff] at hzs
    exact absurd hzs.2 hmore
  have hlength : ys.length = zs.length := Nat.le_antisymm (hle h' h) (hle h h')
  obtain ⟨us, heq, -⟩ := h
  obtain ⟨vs, heq', -⟩ := h'
  exact (append_inj' (heq.symm.trans heq') hlength).2

lemma IsSince.pending_eq_nil {us : List WatchInput} (hw : w.pending = [])
    (h : us = [] ∨ ∃ us' now, us = us' ++ [.poll now] ∧ w.polled us' now ≠ []) : (w.after us).pending = [] := by
  rcases h with rfl | ⟨us, now, rfl, hbatch⟩
  · exact hw
  · rw [after_append, after_cons_poll]
    rcases (w.after us).takeReady_cases now with h | ⟨-, -, h⟩
    · exact absurd (congrArg Prod.fst h) hbatch
    · rw [h]
      rfl

lemma IsSince.mem_pending_iff (hw : w.pending = []) (h : w.IsSince xs ys) :
    (path, t) ∈ (w.after xs).pending ↔ w.IsLastChange ys path t := by
  obtain ⟨us, rfl, hys, hus⟩ := h
  rw [after_append, Watcher.mem_pending_iff (IsSince.pending_eq_nil hw hus) hys, isLastChange_after]

/-- What a poll hands out, by the inputs since the last batch. -/
structure HandsOut (w : Watcher) (ys : List WatchInput) (now : Instant) (batch : List String) : Prop where
  /-- Every path is quiet. -/
  quiet : batch ≠ [] → ∀ path t, w.IsLastChange ys path t → w.debounce.nanos ≤ now.nanos - t.nanos
  /-- The batch holds the paths that changed. -/
  mem_iff : batch ≠ [] → ∀ path, path ∈ batch ↔ ∃ t, w.Changes ys path t
  /-- Paths ascend, so that none is twice in the batch. -/
  ascending : batch.Pairwise (Text.rank · < Text.rank ·)
  /-- What is quiet is not held back. -/
  ready : w.debounce.nanos ≤ Duration.maxNanos → (∃ path t, w.Changes ys path t) →
    (∀ path t, w.IsLastChange ys path t → w.debounce.nanos ≤ now.nanos - t.nanos) → batch ≠ []

lemma isSettling_eq_false_iff :
    w.isSettling now = false ↔ ∀ path t, (path, t) ∈ w.pending → w.debounce.nanos ≤ (now.since t).nanos := by
  rw [isSettling, any_eq_false]
  simp only [decide_eq_true_eq, not_lt, Prod.forall]

lemma polled_eq_ite (w : Watcher) (xs : List WatchInput) (now : Instant) :
    w.polled xs now = if (w.after xs).isSettling now then [] else (w.after xs).pending.map (·.1) := by
  rw [polled, takeReady]
  split <;> rfl

lemma handsOut_polled (hw : w.pending = []) (hclock : AreChronological (xs ++ [.poll now])) (h : w.IsSince xs ys) :
    w.HandsOut ys now (w.polled xs now) := by
  have hpending : ∀ {path t}, (path, t) ∈ (w.after xs).pending ↔ w.IsLastChange ys path t :=
    fun {_ _} => h.mem_pending_iff hw
  have hearlier : ∀ path t, w.IsLastChange ys path t → t.nanos ≤ now.nanos := by
    rintro path t ⟨us, x, vs, rfl, ⟨e, rfl, -⟩, -⟩
    obtain ⟨zs, rfl, -⟩ := h
    exact (pairwise_append.1 hclock).2.2 (.event t e) (by simp) _ (mem_singleton_self _)
  have hpolled := w.polled_eq_ite xs now
  cases hsettling : (w.after xs).isSettling now with
  | true =>
    rw [hsettling, if_pos rfl] at hpolled
    rw [hpolled]
    -- the empty batch has to be right only in that something was not quiet
    refine ⟨absurd rfl, absurd rfl, List.Pairwise.nil, fun hword _ hquiet => ?_⟩
    have hsettled : (w.after xs).isSettling now = false := isSettling_eq_false_iff.2 fun path t hmem => by
      rw [debounce_after]
      exact Instant.le_since_nanos hword (hquiet path t (hpending.1 hmem))
    cases hsettling.symm.trans hsettled
  | false =>
    rw [hsettling, if_neg Bool.false_ne_true] at hpolled
    have hmem : ∀ path, path ∈ w.polled xs now ↔ ∃ t, w.Changes ys path t := by
      intro path
      rw [hpolled, ← exists_isLastChange_iff]
      simp [hpending]
    refine ⟨fun _ path t hlast => ?_, fun _ => hmem, ?_, ?_⟩
    · have hquiet := isSettling_eq_false_iff.1 hsettling path t (hpending.2 hlast)
      rw [debounce_after] at hquiet
      exact hquiet.trans (Instant.since_nanos_le (hearlier path t hlast))
    · rw [hpolled, pairwise_map]
      exact areAscending_after (areAscending_of_eq_nil hw) xs
    · rintro - ⟨path, hsome⟩ -
      exact ne_nil_of_mem ((hmem path).2 hsome)

/-! ### What comes of a change -/

lemma not_changes_of_cons {x : WatchInput} (h : ∀ u, ¬ w.Changes (x :: xs) path u) :
    (∀ u, ¬ w.IsChangeOf path u x) ∧ ∀ u, ¬ (w.after [x]).Changes xs path u := by
  rw [changes_after]
  exact ⟨fun u hx => h u ⟨x, mem_cons_self, hx⟩, fun u ⟨y, hy, hchange⟩ => h u ⟨y, mem_cons_of_mem x hy, hchange⟩⟩

lemma notMem_of_mem_batches (hw : AreAscending w.pending) (hpath : ∀ u, (path, u) ∉ w.pending)
    (hxs : ∀ u, ¬ w.Changes xs path u) : ∀ batch ∈ w.batches xs, path ∉ batch := by
  induction xs generalizing w with
  | nil => exact nofun
  | cons x xs ih =>
    obtain ⟨hx, hrest⟩ := not_changes_of_cons hxs
    have ih := ih (areAscending_after hw [x])
    cases x with
    | event now e =>
      refine ih (fun u hu => ?_) hrest
      exact ((mem_pending_observe hw).1 hu).elim (hx u) fun hu => hpath u hu.1
    | poll now =>
      rw [batches_cons_poll]
      rcases w.takeReady_cases now with hready | ⟨-, hpending, hready⟩
      all_goals
        have hstep : w.after [.poll now] = (w.takeReady now).2 := rfl
        rw [hstep, hready] at ih hrest
        rw [hready]
      · exact ih hpath hrest
      · rw [if_neg (by simpa using hpending), forall_mem_cons]
        exact ⟨by simpa using hpath, ih (fun _ => not_mem_nil) hrest⟩

/-- A path that is pending and does not change any more is in the next batch, and in none behind
it. -/
lemma batches_of_mem_pending (hw : AreAscending w.pending) (hpath : (path, t) ∈ w.pending)
    (hxs : ∀ u, ¬ w.Changes xs path u) :
    w.batches xs = [] ∧ (path, t) ∈ (w.after xs).pending ∨
      ∃ batch rest, w.batches xs = batch :: rest ∧ path ∈ batch ∧ ∀ later ∈ rest, path ∉ later := by
  induction xs generalizing w with
  | nil => exact .inl ⟨rfl, hpath⟩
  | cons x xs ih =>
    obtain ⟨hx, hrest⟩ := not_changes_of_cons hxs
    have ih := ih (areAscending_after hw [x])
    cases x with
    | event now e => exact ih ((mem_pending_observe hw).2 (.inr ⟨hpath, hx⟩)) hrest
    | poll now =>
      rw [batches_cons_poll, after_cons_poll]
      rcases w.takeReady_cases now with hready | ⟨-, hpending, hready⟩
      all_goals
        have hstep : w.after [.poll now] = (w.takeReady now).2 := rfl
        rw [hstep, hready] at ih hrest
        rw [hready]
      · exact ih hpath hrest
      · -- the batch takes all that is pending, so the rest starts without the path
        rw [if_neg (by simpa using hpending)]
        refine .inr ⟨_, _, rfl, mem_map_of_mem hpath, ?_⟩
        exact notMem_of_mem_batches List.Pairwise.nil (fun _ => not_mem_nil) hrest

/-- A poll that hands out nothing, although a path is pending, finds a change that is not quiet. -/
lemma exists_changes_of_polled_eq_nil (hw : w.pending = []) (hword : w.debounce.nanos ≤ Duration.maxNanos)
    (hpath : (path, t) ∈ (w.after xs).pending) (hnone : w.polled xs now = []) :
    ∃ other u, w.Changes xs other u ∧ now.nanos - u.nanos < w.debounce.nanos := by
  by_contra hquiet
  simp only [not_exists, not_and, not_lt] at hquiet
  have hsettled : (w.after xs).isSettling now = false := by
    refine isSettling_eq_false_iff.2 fun other u hmem => ?_
    obtain ⟨ys, hys⟩ := w.exists_isSince xs
    obtain ⟨us, x, vs, rfl, hx, -⟩ := (hys.mem_pending_iff hw).1 hmem
    obtain ⟨zs, rfl, -⟩ := hys
    rw [debounce_after]
    exact Instant.le_since_nanos hword (hquiet other u ⟨x, by simp, hx⟩)
  rw [polled_eq_ite, hsettled, if_neg Bool.false_ne_true] at hnone
  exact ne_nil_of_mem (mem_map_of_mem hpath) hnone

/-- What comes of a path that changed and does not change any more: it is in the next batch and in
none behind it, or it is pending, since every poll has found a change that was not quiet. -/
def IsHandedOutOnce (w : Watcher) (us vs : List WatchInput) (path : String) : Prop :=
  (∃ batch later, (w.after us).batches vs = batch :: later ∧ path ∈ batch ∧ ∀ b ∈ later, path ∉ b) ∨
    (w.after us).batches vs = [] ∧ (∃ t, (path, t) ∈ (w.after (us ++ vs)).pending) ∧
      (w.debounce.nanos ≤ Duration.maxNanos → ∀ vs' now vs'', vs = vs' ++ .poll now :: vs'' →
        ∃ other u, w.Changes (us ++ vs') other u ∧ now.nanos - u.nanos < w.debounce.nanos)

lemma isHandedOutOnce (hw : w.pending = []) (hpath : (path, t) ∈ (w.after xs).pending)
    (hys : ∀ u, ¬ w.Changes ys path u) : w.IsHandedOutOnce xs ys path := by
  have hsorted := areAscending_after (areAscending_of_eq_nil hw) xs
  rcases batches_of_mem_pending hsorted hpath (changes_after w xs ▸ hys) with ⟨hnone, hpending⟩ | hbatch
  · refine .inr ⟨hnone, ⟨t, by rwa [after_append]⟩, ?_⟩
    rintro hword ys now zs rfl
    rw [batches_append, append_eq_nil_iff, ← after_append, batches_cons_poll] at hnone
    have hbefore : ∀ u, ¬ w.Changes ys path u := fun u ⟨x, hx, hchange⟩ => hys u ⟨x, mem_append_left _ hx, hchange⟩
    rcases batches_of_mem_pending hsorted hpath (changes_after w xs ▸ hbefore) with ⟨-, hstill⟩ | ⟨_, _, hsome, -⟩
    · rw [← after_append] at hstill
      refine exists_changes_of_polled_eq_nil hw hword hstill ?_
      by_contra hbatch
      exact cons_ne_nil _ _ ((if_neg hbatch).symm.trans hnone.2)
    · rw [hnone.1] at hsome
      cases hsome
  · exact .inl hbatch

/-- Watching loses no change. Over all inputs under a clock that never goes back, every poll hands
out nothing, or the paths that changed since the last batch, each once and in ascending order, when
all of them are quiet. A change, also one that comes while a batch is being worked on, is handed out
once after the last change of its path. No other paths are handed out. -/
theorem feed_loses_no_change (hw : w.pending = []) (hxs : AreChronological xs) :
    (∀ us now vs, xs = us ++ .poll now :: vs →
      ∃ ys, w.IsSince us ys ∧ (∀ zs, w.IsSince us zs → zs = ys) ∧ w.HandsOut ys now (w.polled us now)) ∧
    (∀ us x vs path t, xs = us ++ x :: vs → w.IsChangeOf path t x → (∀ u, ¬ w.Changes vs path u) →
      w.IsHandedOutOnce (us ++ [x]) vs path) ∧
    ∀ batch ∈ w.batches xs, ∀ path ∈ batch, w.isRelevant path = true ∧ ∃ t, w.Changes xs path t := by
  refine ⟨?_, ?_, fun batch hbatch path hpath => ?_⟩
  · rintro us now vs rfl
    obtain ⟨ys, hys⟩ := w.exists_isSince us
    have hclock : AreChronological (us ++ [.poll now]) := hxs.sublist (by simp)
    exact ⟨ys, hys, fun zs hzs => hzs.unique hys, handsOut_polled hw hclock hys⟩
  · rintro us x vs path t - hx hvs
    obtain ⟨e, rfl, -⟩ := id hx
    refine isHandedOutOnce hw (t := t) ?_ hvs
    rw [after_append]
    refine (mem_pending_observe (areAscending_after (areAscending_of_eq_nil hw) us)).2 (.inl ?_)
    rwa [isChangeOf_after]
  · have hsome : ∃ t, w.Changes xs path t := by
      by_contra hnone
      rw [not_exists] at hnone
      refine notMem_of_mem_batches (areAscending_of_eq_nil hw) (fun u hu => ?_) hnone batch hbatch hpath
      rw [hw] at hu
      cases hu
    obtain ⟨t, x, hx, e, -, -, -, hrelevant⟩ := id hsome
    exact ⟨hrelevant, hsome⟩

def rebuildWatcher : Watcher where
  roots := ["."]
  debounce := Duration.millis 500

/-- Two modules are written, and one of them once more after both were handed out. -/
def rebuildInputs : List WatchInput :=
  [.event ⟨0, 0⟩ ⟨"b.bcm", [.create]⟩, .event ⟨100000000, 0⟩ ⟨"a.bcm", [.write]⟩, .poll ⟨200000000, 0⟩,
    .poll ⟨700000000, 0⟩, .event ⟨800000000, 0⟩ ⟨"a.bcm", [.attributes, .write]⟩, .poll ⟨900000000, 0⟩,
    .poll ⟨1400000000, 0⟩]

theorem feed_loses_no_change_rebuild :
    rebuildWatcher.pending = [] ∧ AreChronological rebuildInputs ∧
      rebuildWatcher.batches rebuildInputs = [["a.bcm", "b.bcm"], ["a.bcm"]] ∧
      (∃ ys, rebuildWatcher.IsSince (rebuildInputs.take 6) ys ∧
        rebuildWatcher.HandsOut ys ⟨1400000000, 0⟩ (rebuildWatcher.polled (rebuildInputs.take 6) ⟨1400000000, 0⟩)) ∧
      rebuildWatcher.IsHandedOutOnce (rebuildInputs.take 5) (rebuildInputs.drop 5) "a.bcm" := by
  have hclock : AreChronological rebuildInputs := by
    unfold AreChronological
    decide
  have hchange : rebuildWatcher.IsChangeOf "a.bcm" ⟨800000000, 0⟩ (.event ⟨800000000, 0⟩ ⟨"a.bcm", [.attributes, .write]⟩) :=
    isChangeOf_event_iff.2 ⟨by decide +kernel, rfl, rfl⟩
  obtain ⟨hpolls, hchanges, -⟩ := feed_loses_no_change (w := rebuildWatcher) rfl hclock
  obtain ⟨ys, hsince, -, hbatch⟩ := hpolls (rebuildInputs.take 6) _ [] rfl
  refine ⟨rfl, hclock, by decide +kernel, ⟨ys, hsince, hbatch⟩, ?_⟩
  refine hchanges (rebuildInputs.take 4) _ (rebuildInputs.drop 5) _ _ rfl hchange fun u hu => ?_
  obtain ⟨x, hx, e, rfl, -⟩ := hu
  simp [rebuildInputs] at hx

end Watcher

end BytecodeAudit
