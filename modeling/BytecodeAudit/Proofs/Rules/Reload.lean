import Mathlib.Data.List.Induction
import BytecodeAudit.Proofs.Json.Parsed
import BytecodeAudit.Proofs.Report.Forms
import BytecodeAudit.Proofs.Report.Rebuild

/-!
# Rule sets written and read back

A rule set is written as the list of its rules, and reading adds them one after another. Adding a
rule for every context removes the other rules of its id, so those survive behind which no such rule
of their id stands (`survivors`, `reload_eq`, `rules_ofList`).

Sets that were reached by changes have one rule for each id and filter (`areDistinct_run`), so they
are tables of severities (`isTable_run`). Setting a rule for every context may put it behind rules
of its id, so that it does not survive.
-/

namespace BytecodeAudit

open List

open Json

namespace Rule

def repaired (r : Rule) : Rule where
  id := Text.repaired r.id
  filter := Text.repaired r.filter
  severity := ⟨Text.repaired r.severity.label⟩

lemma repaired_toJson (r : Rule) : r.toJson.repaired = r.repaired.toJson := by
  rw [toJson, repaired_compactFields areJsonNames rfl, toJson]
  simp only [map_cons, map_nil, Option.map_some, Json.repaired, repaired_text?]
  rfl

lemma isPlain_toJson_repaired (r : Rule) : r.repaired.toJson.IsPlain :=
  isPlain_toJson (Text.isValid_repaired _) (Text.isValid_repaired _) (Text.isValid_repaired _)

/-- Whether the texts that a rule is found by are valid. -/
structure IsNamed (r : Rule) : Prop where
  id : Text.IsValid r.id
  filter : Text.IsValid r.filter

instance (r : Rule) : Decidable r.IsNamed :=
  decidable_of_iff (Text.IsValid r.id ∧ Text.IsValid r.filter) ⟨fun h => ⟨h.1, h.2⟩, fun h => ⟨h.id, h.filter⟩⟩

lemma IsNamed.repaired_eq {r : Rule} (h : r.IsNamed) :
    r.repaired = { r with severity := ⟨Text.repaired r.severity.label⟩ } := by
  rw [repaired, Text.repaired_eq_self_iff.2 h.id, Text.repaired_eq_self_iff.2 h.filter]

lemma repaired_eq_self_iff {r : Rule} : r.repaired = r ↔ r.IsNamed ∧ Text.IsValid r.severity.label := by
  constructor
  · intro h
    have hid : Text.repaired r.id = r.id := congrArg Rule.id h
    have hfilter : Text.repaired r.filter = r.filter := congrArg Rule.filter h
    have hlabel : Text.repaired r.severity.label = r.severity.label := congrArg (·.severity.label) h
    exact ⟨⟨Text.repaired_eq_self_iff.1 hid, Text.repaired_eq_self_iff.1 hfilter⟩, Text.repaired_eq_self_iff.1 hlabel⟩
  · rintro ⟨hnamed, hlabel⟩
    rw [hnamed.repaired_eq, Text.repaired_eq_self_iff.2 hlabel]

lemma map_repaired_eq_self {rs : List Rule} (h : ∀ r ∈ rs, r.IsNamed ∧ Text.IsValid r.severity.label) :
    rs.map repaired = rs :=
  (map_congr_left fun r hr => repaired_eq_self_iff.2 (h r hr)).trans (map_id rs)

lemma isNamed_of_decode {r : Rule} {j : Json} (hj : j.IsLegible) (h : decode j = some r) : r.IsNamed := by
  refine decodeFields_invariant h ⟨Text.isValid_ofChars [], Text.isValid_ofChars []⟩ fun a k v b ha hk hv hb => ?_
  have hv : v.IsLegible := hj.of_mem_fields hv
  simp only [mem_cons, not_mem_nil, or_false] at hk
  rcases hk with rfl | rfl | rfl <;> obtain ⟨y, hy, rfl⟩ := Option.map_eq_some_iff.1 hb
  · exact ⟨isValid_of_decodeText hv ha.id hy, ha.filter⟩
  · exact ⟨ha.id, isValid_of_decodeText hv ha.filter hy⟩
  · exact ⟨ha.id, ha.filter⟩

end Rule

namespace RuleSet

variable {rs : List Rule} {s : RuleSet} {cs : List Change} {x : Rule}

/-! ### Changes -/

inductive Change where
  | add (r : Rule)
  | set (r : Rule)
  | clear (id filter : String)
  | clearAll (id : String)
  | read (text : String)

/-- Whether a change adds and sets only rules that are found by valid texts. -/
def Change.IsNamed : Change → Prop
  | .add r | .set r => r.IsNamed
  | _ => True

/-- Makes a change. A text that cannot be read changes nothing. -/
def apply (s : RuleSet) : Change → RuleSet
  | .add r => s.add r
  | .set r => s.set r
  | .clear id filter => s.clear id filter
  | .clearAll id => s.clearAll id
  | .read text => ((parse? text).bind decode).getD s

def run (cs : List Change) : RuleSet := cs.foldl apply empty

lemma run_induction {P : RuleSet → Prop} (hempty : P empty) (happly : ∀ s, P s → ∀ c ∈ cs, P (s.apply c)) :
    P (run cs) :=
  foldlRecOn cs apply hempty happly

def readRules? (text : String) : Option (List Rule) := (parse? text).bind (decodeList Rule.decode)

lemma apply_read (s : RuleSet) (text : String) : s.apply (.read text) = ((readRules? text).map ofList).getD s := by
  rw [apply, readRules?]
  cases parse? text <;> rfl

lemma isNamed_run (h : ∀ c ∈ cs, c.IsNamed) : ∀ r ∈ (run cs).rules, r.IsNamed := by
  refine run_induction (P := fun s => ∀ r ∈ s.rules, r.IsNamed) (nofun) fun s hs c hc x hx => ?_
  cases c with
  | add r => exact (mem_add hx).elim (fun heq => heq ▸ h _ hc) (hs x)
  | set r => exact (mem_upsert hx).elim (fun heq => heq ▸ h _ hc) (hs x)
  | clear => exact hs x (mem_of_mem_filter hx)
  | clearAll => exact hs x (mem_of_mem_filter hx)
  | read text =>
    rw [apply_read] at hx
    cases hread : readRules? text with
    | none => exact hs x (by rwa [hread] at hx)
    | some rs =>
      rw [hread] at hx
      obtain ⟨j, hj, hrs⟩ := Option.bind_eq_some_iff.1 hread
      obtain ⟨ys, rfl, y, hy, hyx⟩ := exists_of_mem_decodeList hrs (mem_of_mem_ofList hx)
      exact Rule.isNamed_of_decode (areLegible_iff.1 (isRead_of_parse? hj).legible y hy) hyx

/-! ### What survives -/

/-- Whether no id and filter has two rules. -/
def AreDistinct (rs : List Rule) : Prop := (rs.map fun x => (x.id, x.filter)).Nodup

/-- Whether no rule for every context stands behind a rule of its id. -/
def AreInOrder (rs : List Rule) : Prop := rs.Pairwise fun x y => x.id = y.id → y.filter ≠ ""

def isCanonized (id : String) (rs : List Rule) : Bool := rs.any (·.isFor id "")

/-- The rules behind which no rule for every context of their id stands. -/
def survivors : List Rule → List Rule
  | [] => []
  | x :: xs => if isCanonized x.id xs then survivors xs else x :: survivors xs

lemma areNormal_iff : AreNormal rs ↔ AreDistinct rs ∧ AreInOrder rs := by
  rw [AreDistinct, AreInOrder, List.Nodup, pairwise_map, ← pairwise_and_iff]
  refine List.Pairwise.iff fun x y => ?_
  rw [imp_and, ← not_and, ← Prod.mk.injEq]

lemma survivors_sublist (rs : List Rule) : (survivors rs).Sublist rs := by
  induction rs with
  | nil => exact List.Sublist.refl []
  | cons x xs ih =>
    rw [survivors]
    split
    · exact ih.cons x
    · exact ih.cons_cons x

lemma survivors_append_singleton (rs : List Rule) (r : Rule) :
    survivors (rs ++ [r]) = (survivors rs).filter (fun x => !(r.isFor x.id "")) ++ [r] := by
  induction rs with
  | nil => rfl
  | cons x xs ih =>
    have hcanonized : isCanonized x.id (xs ++ [r]) = (isCanonized x.id xs || r.isFor x.id "") := by
      rw [isCanonized, any_append, any_cons, any_nil, Bool.or_false]
      rfl
    rw [cons_append, survivors, hcanonized, ih, survivors]
    cases isCanonized x.id xs <;> cases hr : r.isFor x.id "" <;> simp [hr]

lemma rules_ofList (h : AreDistinct rs) : (ofList rs).rules = survivors rs := by
  induction rs using reverseRecOn with
  | nil => rfl
  | append_singleton rs r ih =>
    rw [AreDistinct, map_append, nodup_append] at h
    obtain ⟨hrs, -, hnew⟩ := h
    have hfold : ofList (rs ++ [r]) = (ofList rs).add r := foldl_append
    rw [hfold, survivors_append_singleton, ← ih hrs, add]
    split
    · next hfilter =>
      have hfor : ∀ x : Rule, r.isFor x.id "" = (x.id == r.id) := fun x => by
        rw [Rule.isFor, hfilter, Bool.and_true, Bool.beq_comm]
      simp only [hfor]
      rfl
    · next hfilter =>
      have hfor : ∀ x : Rule, r.isFor x.id "" = false := fun x => by
        rw [Rule.isFor, Bool.eq_false_iff.2 hfilter, Bool.and_false]
      -- no rule that is there has the filter of the new one
      have hother : ∀ x ∈ (ofList rs).rules, ¬ (x.id = r.id ∧ x.filter = r.filter) := fun x hx hsame =>
        hnew _ (mem_map_of_mem (mem_of_mem_ofList hx)) _ (mem_singleton_self _) (Prod.ext hsame.1 hsame.2)
      simp only [hfor, Bool.not_false, filter_true]
      exact upsert_eq_append hother

lemma isCanonized_eq_false_iff {id : String} : isCanonized id rs = false ↔ ∀ x ∈ rs, id = x.id → x.filter ≠ "" := by
  rw [isCanonized, any_eq_false]
  refine forall₂_congr fun x _ => ?_
  rw [Rule.isFor_iff, not_and, eq_comm]

lemma survivors_map {f : Rule → Rule} (h : ∀ r ∈ rs, (f r).id = r.id ∧ (f r).filter = r.filter) :
    survivors (rs.map f) = (survivors rs).map f := by
  induction rs with
  | nil => rfl
  | cons x xs ih =>
    obtain ⟨hx, hxs⟩ := forall_mem_cons.1 h
    have hcanonized : isCanonized (f x).id (xs.map f) = isCanonized x.id xs := by
      rw [Bool.eq_iff_iff, isCanonized, isCanonized, any_map, any_eq_true, any_eq_true, hx.1]
      refine exists_congr fun y => and_congr_right fun hy => ?_
      rw [Function.comp_apply, Rule.isFor, Rule.isFor, (hxs y hy).1, (hxs y hy).2]
    rw [map_cons, survivors, hcanonized, ih hxs, survivors]
    split <;> rfl

lemma AreDistinct.sublist {rs' : List Rule} (h : AreDistinct rs) (hsub : rs'.Sublist rs) : AreDistinct rs' :=
  (hsub.map _).nodup h

lemma mem_survivors_of_canonical (h : AreDistinct rs) (hx : x ∈ rs) (hfilter : x.filter = "") : x ∈ survivors rs := by
  induction rs with
  | nil => exact hx
  | cons y ys ih =>
    have hys : AreDistinct ys := h.sublist (sublist_cons_self y ys)
    rw [survivors]
    rcases mem_cons.1 hx with rfl | hx
    · have hother : isCanonized x.id ys = false := by
        refine isCanonized_eq_false_iff.2 fun z hz hid hcanonical => ?_
        rw [AreDistinct, map_cons, nodup_cons] at h
        exact h.1 (mem_map.2 ⟨z, hz, by rw [hid, hfilter, hcanonical]⟩)
      rw [hother, if_neg Bool.false_ne_true]
      exact mem_cons_self
    · split
      · exact ih hys hx
      · exact mem_cons_of_mem y (ih hys hx)

/-! ### Severities -/

lemma isFor_of_get? {id filter : String} (h : s.get? id filter = some x) : x.isFor id filter :=
  find?_some (p := fun y : Rule => y.isFor id filter) h

lemma get?_eq_some_iff (h : AreDistinct s.rules) {id filter : String} :
    s.get? id filter = some x ↔ x ∈ s.rules ∧ x.isFor id filter := by
  constructor
  · intro hx
    exact ⟨mem_of_find?_eq_some hx, isFor_of_get? hx⟩
  · rintro ⟨hmem, hx⟩
    cases hfind : s.get? id filter with
    | none => exact absurd hx (find?_eq_none.1 hfind x hmem)
    | some y =>
      have hy := isFor_of_get? hfind
      rw [Rule.isFor_iff] at hx hy
      exact congrArg some (inj_on_of_nodup_map h (mem_of_find?_eq_some hfind) hmem
        (Prod.ext (hy.1.trans hx.1.symm) (hy.2.trans hx.2.symm)))

/-- Whether the rule of an id and a context is among the rules and does not survive. -/
def isReplaced (rs : List Rule) (id context : String) : Bool :=
  rs.any fun x => x.isFor id context && !(survivors rs).contains x

section

variable (h : AreDistinct rs)
include h

lemma get?_survivors (id filter : String) : (RuleSet.mk (survivors rs)).get? id filter =
      if isReplaced rs id filter then none else (RuleSet.mk rs).get? id filter := by
  have hsub : AreDistinct (survivors rs) := h.sublist (survivors_sublist rs)
  refine Option.ext fun x => ?_
  rw [get?_eq_some_iff hsub]
  split
  · next hreplaced =>
    obtain ⟨y, hy, hcond⟩ := any_eq_true.1 hreplaced
    rw [Bool.and_eq_true, Bool.not_eq_true', ← Bool.not_eq_true, contains_iff_mem] at hcond
    refine ⟨fun ⟨hx, hfor⟩ => ?_, nofun⟩
    -- there is one rule for the filter, and it does not survive
    have hx' := (get?_eq_some_iff (s := ⟨rs⟩) h).2 ⟨(survivors_sublist rs).subset hx, hfor⟩
    have hy' := (get?_eq_some_iff (s := ⟨rs⟩) h).2 ⟨hy, hcond.1⟩
    obtain rfl : x = y := Option.some.inj (hx'.symm.trans hy')
    exact absurd hx hcond.2
  · next hreplaced =>
    rw [get?_eq_some_iff h]
    refine and_congr_left fun hfor => ⟨fun hx => (survivors_sublist rs).subset hx, fun hx => ?_⟩
    by_contra hnot
    refine hreplaced (any_eq_true.2 ⟨x, hx, ?_⟩)
    rw [hfor, Bool.true_and, Bool.not_eq_true', ← Bool.not_eq_true, contains_iff_mem]
    exact hnot

lemma isReplaced_empty (id : String) : isReplaced rs id "" = false := by
  rw [isReplaced, any_eq_false]
  intro x hx hcond
  rw [Bool.and_eq_true, Bool.not_eq_true', ← Bool.not_eq_true, contains_iff_mem, Rule.isFor_iff] at hcond
  exact hcond.2 (mem_survivors_of_canonical h hx hcond.1.2)

/-- A context whose rule is replaced has the severity of every context, and the others keep
theirs. -/
lemma severity?_survivors (id context : String) : (RuleSet.mk (survivors rs)).severity? id context =
      (RuleSet.mk rs).severity? id (if isReplaced rs id context then "" else context) := by
  simp only [severity?, get?_survivors h, isReplaced_empty h, if_neg Bool.false_ne_true]
  cases hreplaced : isReplaced rs id context with
  | false => rfl
  | true => simp

/-! ### What changes keep -/

lemma areDistinct_upsert (r : Rule) : AreDistinct (upsert r rs) := by
  obtain hmap | ⟨hnone, happend⟩ := upsert_cases r rs
  · rwa [AreDistinct, hmap]
  · have hnew : (r.id, r.filter) ∉ rs.map fun x => (x.id, x.filter) := fun hmem => by
      obtain ⟨x, hx, hsame⟩ := mem_map.1 hmem
      exact hnone x hx (Prod.mk.inj hsame)
    rw [AreDistinct, happend, map_append]
    exact concat_eq_append ▸ List.Nodup.concat hnew h

end

lemma areDistinct_add (h : AreDistinct s.rules) (r : Rule) : AreDistinct (s.add r).rules := by
  rw [rules_add]
  split
  · exact areDistinct_upsert (h.sublist filter_sublist) r
  · exact areDistinct_upsert h r

lemma areDistinct_apply (h : AreDistinct s.rules) (c : Change) : AreDistinct (s.apply c).rules := by
  cases c with
  | add r => exact areDistinct_add h r
  | set r => exact areDistinct_upsert h r
  | clear => exact h.sublist filter_sublist
  | clearAll => exact h.sublist filter_sublist
  | read text =>
    rw [apply_read]
    cases readRules? text with
    | none => exact h
    | some rs => exact (areNormal_iff.1 (areNormal_ofList rs)).1

lemma areDistinct_run (cs : List Change) : AreDistinct (run cs).rules :=
  run_induction (P := fun s => AreDistinct s.rules) nodup_nil fun _ hs c _ => areDistinct_apply hs c

lemma areNormal_apply (h : AreNormal s.rules) {c : Change} (hc : ∀ r, c = .set r → r.filter ≠ "") :
    AreNormal (s.apply c).rules := by
  cases c with
  | add r => exact areNormal_add h r
  | set r =>
    have hadd : s.add r = s.set r := if_neg (by simpa using hc r rfl)
    show AreNormal (s.set r).rules
    rw [← hadd]
    exact areNormal_add h r
  | clear => exact List.Pairwise.filter _ h
  | clearAll => exact List.Pairwise.filter _ h
  | read text =>
    rw [apply_read]
    cases readRules? text with
    | none => exact h
    | some rs => exact areNormal_ofList rs

lemma areNormal_run (h : ∀ r, .set r ∈ cs → r.filter ≠ "") : AreNormal (run cs).rules :=
  run_induction (P := fun s => AreNormal s.rules) List.Pairwise.nil fun _ hs _ hc =>
    areNormal_apply hs fun r hr => h r (hr ▸ hc)

/-! ### The table -/

abbrev SeverityTable := String → String → Option Severity

namespace SeverityTable

def put (t : SeverityTable) (r : Rule) : SeverityTable :=
  fun id filter => if id = r.id ∧ filter = r.filter then some r.severity else t id filter

def remove (t : SeverityTable) (p : String → String → Bool) : SeverityTable :=
  fun id filter => if p id filter then none else t id filter

/-- Writes the entry of a rule, and removes every other entry of its id if it is for every
context. -/
def add (t : SeverityTable) (r : Rule) : SeverityTable :=
  if r.filter = "" then (t.remove fun id _ => id == r.id).put r else t.put r

def ofList (rs : List Rule) : SeverityTable := rs.foldl add fun _ _ => none

def apply (t : SeverityTable) : Change → SeverityTable
  | .add r => t.add r
  | .set r => t.put r
  | .clear id filter => t.remove fun i f => i == id && f == filter
  | .clearAll id => t.remove fun i _ => i == id
  | .read text => ((readRules? text).map ofList).getD t

def run (cs : List Change) : SeverityTable := cs.foldl apply fun _ _ => none

variable (t : SeverityTable)

lemma put_put_of_eq {r x : Rule} (hid : x.id = r.id) (hfilter : x.filter = r.filter) :
    (t.put x).put r = t.put r := by
  funext id filter
  simp only [put, hid, hfilter]
  split <;> rfl

lemma put_put_of_ne {r x : Rule} (h : ¬ (x.id = r.id ∧ x.filter = r.filter)) :
    (t.put r).put x = (t.put x).put r := by
  funext id filter
  simp only [put]
  split
  · next hx => rw [if_neg fun hr => h ⟨hx.1.symm.trans hr.1, hx.2.symm.trans hr.2⟩]
  · rfl

lemma remove_put (p : String → String → Bool) (x : Rule) :
    (t.put x).remove p = if p x.id x.filter then t.remove p else (t.remove p).put x := by
  funext id filter
  by_cases hx : id = x.id ∧ filter = x.filter
  · obtain ⟨rfl, rfl⟩ := hx
    cases hp : p x.id x.filter <;> simp [remove, put, hp]
  · cases p x.id x.filter <;> simp [remove, put, hx]

end SeverityTable

def entries (s : RuleSet) : SeverityTable := fun id filter => (s.get? id filter).map (·.severity)

lemma get?_eq_map_entries (s : RuleSet) (id filter : String) :
    s.get? id filter = (s.entries id filter).map (Rule.mk id filter) := by
  rw [entries]
  cases hx : s.get? id filter with
  | none => rfl
  | some x =>
    obtain ⟨rfl, rfl⟩ := Rule.isFor_iff.1 (isFor_of_get? hx)
    rfl

lemma entries_cons (x : Rule) (rs : List Rule) : (RuleSet.mk (x :: rs)).entries = (RuleSet.mk rs).entries.put x := by
  funext id filter
  rw [entries, get?, find?_cons, SeverityTable.put]
  split
  · next hfor =>
    obtain ⟨rfl, rfl⟩ := Rule.isFor_iff.1 hfor
    rw [if_pos ⟨rfl, rfl⟩]
    rfl
  · next hfor =>
    rw [if_neg fun h => by simp [Rule.isFor, h] at hfor]
    rfl

lemma entries_upsert (r : Rule) (rs : List Rule) :
    (RuleSet.mk (upsert r rs)).entries = (RuleSet.mk rs).entries.put r := by
  induction rs with
  | nil => rw [upsert, entries_cons]
  | cons x xs ih =>
    rw [upsert, entries_cons]
    split
    · next hfor =>
      have hx := Rule.isFor_iff.1 hfor
      rw [SeverityTable.put_put_of_eq _ hx.1 hx.2, entries_cons]
      simp only [hx]
    · next hfor => rw [entries_cons, ih, SeverityTable.put_put_of_ne _ (mt Rule.isFor_iff.2 hfor)]

lemma entries_filter (p : String → String → Bool) (rs : List Rule) :
    (RuleSet.mk (rs.filter fun x => !p x.id x.filter)).entries = (RuleSet.mk rs).entries.remove p := by
  induction rs with
  | nil =>
    funext id filter
    exact (ite_self _).symm
  | cons x xs ih =>
    rw [entries_cons, SeverityTable.remove_put, ← ih, filter_cons]
    cases p x.id x.filter with
    | true => rfl
    | false => exact entries_cons x _

lemma entries_add (s : RuleSet) (r : Rule) : (s.add r).entries = s.entries.add r := by
  have hadd : s.add r = ⟨upsert r (if r.filter = "" then (s.clearAll r.id).rules else s.rules)⟩ :=
    congrArg RuleSet.mk (rules_add s r)
  rw [hadd, entries_upsert, SeverityTable.add]
  split
  · exact congrArg (·.put r) (entries_filter (fun id _ => id == r.id) s.rules)
  · rfl

lemma entries_ofList (rs : List Rule) : (ofList rs).entries = SeverityTable.ofList rs := by
  have hempty : empty.entries = fun _ _ => none := rfl
  rw [ofList, SeverityTable.ofList, ← hempty]
  exact (foldl_hom entries fun s r => (entries_add s r).symm).symm

lemma entries_apply (s : RuleSet) (c : Change) : (s.apply c).entries = s.entries.apply c := by
  cases c with
  | add r => exact entries_add s r
  | set r => exact entries_upsert r s.rules
  | clear id filter => exact entries_filter (fun i f => i == id && f == filter) s.rules
  | clearAll id => exact entries_filter (fun i _ => i == id) s.rules
  | read text =>
    rw [apply_read, SeverityTable.apply]
    cases readRules? text with
    | none => rfl
    | some rs => exact entries_ofList rs

lemma entries_run (cs : List Change) : (run cs).entries = SeverityTable.run cs :=
  (foldl_hom entries fun s c => (entries_apply s c).symm).symm

def Change.id? : Change → Option String
  | .add r | .set r => some r.id
  | .clear id _ | .clearAll id => some id
  | .read _ => none

lemma filter_upsert (r : Rule) (rs : List Rule) : (upsert r rs).filter (·.id != r.id) = rs.filter (·.id != r.id) := by
  induction rs with
  | nil => simp [upsert]
  | cons x xs ih =>
    rw [upsert]
    split
    · next hfor => simp [(Rule.isFor_iff.1 hfor).1]
    · rw [filter_cons, ih, filter_cons]

lemma filter_apply (s : RuleSet) {c : Change} {id : String} (h : c.id? = some id) :
    (s.apply c).rules.filter (·.id != id) = s.rules.filter (·.id != id) := by
  have hfilter : ∀ p : Rule → Bool, (∀ x : Rule, x.id ≠ id → p x) →
      (s.rules.filter p).filter (·.id != id) = s.rules.filter (·.id != id) := by
    intro p hp
    rw [filter_filter]
    refine filter_congr fun x _ => ?_
    by_cases hx : x.id = id
    · simp [hx]
    · simp [hp x hx]
  cases c with
  | add r =>
    cases h
    show (s.add r).rules.filter _ = _
    rw [rules_add, filter_upsert]
    split
    · exact hfilter _ fun x hx => by simpa using hx
    · rfl
  | set r =>
    cases h
    exact filter_upsert r s.rules
  | clear i f =>
    cases h
    exact hfilter _ fun x hx => by simp [Rule.isFor, hx]
  | clearAll i =>
    cases h
    exact hfilter _ fun x hx => by simpa using hx
  | read text => cases h

structure IsTable (s : RuleSet) (t : SeverityTable) : Prop where
  distinct : AreDistinct s.rules
  /-- The rule of an id and a filter is the entry of the table. -/
  get?_eq : ∀ id filter, s.get? id filter = (t id filter).map (Rule.mk id filter)
  /-- A change that is about one id leaves the other rules as they are, in their order. -/
  others_eq : ∀ c id, c.id? = some id → (s.apply c).rules.filter (·.id != id) = s.rules.filter (·.id != id)
  /-- A text that cannot be read changes nothing. -/
  apply_read : ∀ text, (parse? text).bind decode = none → s.apply (.read text) = s

/-- A rule set that changes lead to behaves like the table that the same changes lead to. -/
theorem isTable_run (cs : List Change) : (run cs).IsTable (SeverityTable.run cs) := by
  rw [← entries_run]
  refine ⟨areDistinct_run cs, get?_eq_map_entries _, fun c id => filter_apply _, fun text htext => ?_⟩
  rw [apply, htext]
  rfl

/-! ### Reading back -/

def reload (s : RuleSet) : Option RuleSet := (parse? s.toJson.compress).bind decode

lemma repaired_toJson (s : RuleSet) : s.toJson.repaired = (RuleSet.mk (s.rules.map Rule.repaired)).toJson := by
  obtain ⟨_ | ⟨r, rs⟩⟩ := s
  · rfl
  · show (Json.array ((r :: rs).map Rule.toJson)).repaired = .array (((r :: rs).map Rule.repaired).map Rule.toJson)
    rw [repaired_array_map, map_map]
    exact congrArg Json.array (map_congr_left fun x _ => x.repaired_toJson)

lemma isPlain_toJson (h : ∀ r ∈ s.rules, r.toJson.IsPlain) : s.toJson.IsPlain := by
  rw [toJson, arrayOrNull]
  split
  · exact isPlain_null
  · exact isPlain_array_iff.2 (forall_mem_map.2 h)

lemma nesting_toJson_le (s : RuleSet) : s.toJson.nesting ≤ 2 := by
  rw [toJson, arrayOrNull]
  split
  · exact Nat.zero_le 2
  · exact nesting_array_map_le fun r _ => r.nesting_toJson_le

lemma decode_toJson (s : RuleSet) : decode s.toJson = some (ofList s.rules) := by
  obtain ⟨_ | ⟨r, rs⟩⟩ := s
  · rfl
  · exact congrArg (Option.map ofList) (decodeList_map fun x _ => x.decode_toJson)

lemma reload_eq (s : RuleSet) : s.reload = some (ofList (s.rules.map Rule.repaired)) := by
  have hplain : s.toJson.repaired.IsPlain := by
    rw [repaired_toJson]
    exact isPlain_toJson (forall_mem_map.2 fun r _ => r.isPlain_toJson_repaired)
  have hnesting : s.toJson.repaired.nesting ≤ maxDepth := by
    rw [repaired_toJson]
    exact (nesting_toJson_le _).trans (by decide)
  rw [reload, parse?_compress_of_repaired hplain.clean hnesting, Option.bind_some, repaired_toJson, decode_toJson]

/-- A rule set is read back as it was exactly if its texts are valid and its rules are normal. -/
lemma reload_eq_self_iff : s.reload = some s ↔
    (∀ r ∈ s.rules, r.IsNamed ∧ Text.IsValid r.severity.label) ∧ AreNormal s.rules := by
  rw [reload_eq, Option.some_inj]
  constructor
  · intro h
    refine ⟨fun r hr => ?_, h ▸ areNormal_ofList _⟩
    -- every rule of the set is a repaired one
    obtain ⟨x, -, rfl⟩ := mem_map.1 (mem_of_mem_ofList (h.symm ▸ hr))
    exact ⟨⟨Text.isValid_repaired _, Text.isValid_repaired _⟩, Text.isValid_repaired _⟩
  · rintro ⟨hvalid, hnormal⟩
    rw [Rule.map_repaired_eq_self hvalid]
    exact foldl_add (s := empty) hnormal

lemma areDistinct_map {f : Rule → Rule} (h : ∀ r ∈ rs, (f r).id = r.id ∧ (f r).filter = r.filter)
    (hrs : AreDistinct rs) : AreDistinct (rs.map f) := by
  have hkeys : (rs.map f).map (fun x => (x.id, x.filter)) = rs.map fun x => (x.id, x.filter) := by
    rw [map_map]
    exact map_congr_left fun r hr => Prod.ext (h r hr).1 (h r hr).2
  rw [AreDistinct, hkeys]
  exact hrs

/-- What becomes of a rule set that is written and read back, after any changes with valid ids and
filters. It is always read. Its rules are those that survive, with their severities repaired. It is
the same rule set exactly if its severities are valid and no rule for every context stands behind a
rule of its id, and changes that set no rule for every context see to that. A context whose rule
does not survive takes the severity of every context. -/
theorem reload_run {cs : List Change} (h : ∀ c ∈ cs, c.IsNamed) : ∃ t, (run cs).reload = some t ∧
    t.rules = (survivors (run cs).rules).map Rule.repaired ∧
    (t = run cs ↔ (∀ r ∈ (run cs).rules, Text.IsValid r.severity.label) ∧ AreInOrder (run cs).rules) ∧
    ((∀ r, .set r ∈ cs → r.filter ≠ "") → AreInOrder (run cs).rules) ∧
    ((∀ r ∈ (run cs).rules, Text.IsValid r.severity.label) → ∀ id context, t.severity? id context =
      (run cs).severity? id (if isReplaced (run cs).rules id context then "" else context)) := by
  have hnamed := isNamed_run h
  have hdistinct := areDistinct_run cs
  have hkeys : ∀ r ∈ (run cs).rules, r.repaired.id = r.id ∧ r.repaired.filter = r.filter := by
    intro r hr
    rw [(hnamed r hr).repaired_eq]
    exact ⟨rfl, rfl⟩
  have hrules : (ofList ((run cs).rules.map Rule.repaired)).rules = (survivors (run cs).rules).map Rule.repaired := by
    rw [rules_ofList (areDistinct_map hkeys hdistinct), survivors_map hkeys]
  refine ⟨_, reload_eq _, hrules, ?_, fun hset => (areNormal_iff.1 (areNormal_run hset)).2, ?_⟩
  · have hself := reload_eq_self_iff (s := run cs)
    rw [reload_eq, Option.some_inj, areNormal_iff] at hself
    rw [hself]
    refine and_congr (forall₂_congr fun r hr => ?_) (and_iff_right hdistinct)
    exact and_iff_right (hnamed r hr)
  · intro hvalid id context
    have hsurvivors : ofList ((run cs).rules.map Rule.repaired) = ⟨survivors (run cs).rules⟩ := by
      have hmap : (survivors (run cs).rules).map Rule.repaired = survivors (run cs).rules := by
        refine Rule.map_repaired_eq_self fun r hr => ?_
        have hr := (survivors_sublist _).subset hr
        exact ⟨hnamed r hr, hvalid r hr⟩
      exact congrArg RuleSet.mk (hrules.trans hmap)
    rw [hsurvivors]
    exact severity?_survivors hdistinct id context

def canonizing : List Change :=
  [.set ⟨"PAC0001", "A.f()", .minor⟩, .set ⟨"PAC0001", "", .info⟩, .add ⟨"PAC0002", "B.g()", .major⟩]

lemma isNamed_canonizing : ∀ c ∈ canonizing, c.IsNamed := by
  rw [canonizing]
  simp only [forall_mem_cons]
  exact ⟨⟨by decide, by decide⟩, ⟨by decide, by decide⟩, ⟨by decide, by decide⟩, nofun⟩

theorem reload_run_canonizing : (∀ c ∈ canonizing, c.IsNamed) ∧ ∃ t, (run canonizing).reload = some t ∧
    t.rules = [⟨"PAC0001", "", .info⟩, ⟨"PAC0002", "B.g()", .major⟩] := by
  obtain ⟨t, ht, hrules, -⟩ := reload_run isNamed_canonizing
  refine ⟨isNamed_canonizing, t, ht, ?_⟩
  have hsurvivors : survivors (run canonizing).rules = [⟨"PAC0001", "", .info⟩, ⟨"PAC0002", "B.g()", .major⟩] := by
    decide
  rw [hrules, hsurvivors]
  exact Rule.map_repaired_eq_self (by decide)

/-- The rule for one context is lost when the rules are read back, and with it the severity of the
context. -/
theorem reload_canonizing_ne : (run canonizing).reload ≠ some (run canonizing) ∧
    (run canonizing).severity? "PAC0001" "A.f()" = some .minor ∧
    (run canonizing).reload.bind (·.severity? "PAC0001" "A.f()") = some .info := by
  have hreload : (run canonizing).reload = some ⟨[⟨"PAC0001", "", .info⟩, ⟨"PAC0002", "B.g()", .major⟩]⟩ := by
    rw [reload_eq, Rule.map_repaired_eq_self (by decide)]
    decide
  rw [hreload]
  exact ⟨by decide, by decide, by decide⟩

end RuleSet

end BytecodeAudit
