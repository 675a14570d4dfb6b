import Mathlib.Tactic.FinCases
import BytecodeAudit.Proofs.Json.Parsed
import BytecodeAudit.Proofs.Report.Forms
import BytecodeAudit.Proofs.Report.Rebuild

/-!
# Reports that were loaded

Where a JSON value is faithful, the schema of documents and the readers of records see the same
fields, so every record that is read from a value that passes its rule can be stored again
(`isStorable_of_decode`). One lemma for each record says what its fields keep; `record_induction`
puts the schema and the reader together.
-/

namespace BytecodeAudit

open List Option

open Json

variable {j : Json}

def Report.knownNames : List String :=
  Parts.fieldNames ++ ["params", "rules"] ++ ["unfixed", "fixed"] ++ Session.fieldNames ++ Descriptor.fieldNames ++
    ["platform", "params"] ++ ["name", "value"] ++ ["id", "filter", "severity"] ++ ModuleRun.fieldNames ++
    Issue.fieldNames ++ CallNode.fieldNames ++ Location.fieldNames

namespace Report

lemma isFieldName_of_mem_knownNames : ∀ k ∈ knownNames, IsFieldName k := by decide

namespace Schema

lemma exists_of_record {required : List String} {rules : List (String × Rule)} {j : Json}
    (h : record required rules j) (hj : j.isRepeating = false) :
    ∃ fs, j = .object fs ∧ (∀ name ∈ required, name ∈ fs.map Prod.fst) ∧
      ∀ k v rule, (k, v) ∈ fs → (k, rule) ∈ rules → rule v := by
  cases j with
  | object fs =>
    rw [record, Bool.and_eq_true, List.all_eq_true, List.all_eq_true] at h
    refine ⟨fs, rfl, fun name hname => ?_, fun k v rule hv hrule => ?_⟩
    · obtain ⟨f, hf, hk⟩ := List.any_eq_true.1 (h.1 name hname)
      exact eq_of_beq hk ▸ List.mem_map_of_mem hf
    · have hall : ((Json.object fs).field? k).all rule := h.2 (k, rule) hrule
      rw [field?_eq_of_mem hj hv] at hall
      exact hall
  | _ => cases h

variable {α : Type} {known required : List String} {rules : List (String × Rule)}
  {set : α → String → Json → Option α} {cur x : α} {j : Json}

/-- A record is read from a value that passes its rule: every known field is read from a value that
passes the rule for it, and the required ones are read. -/
lemma record_induction {P : List String → α → Prop} (hknown : ∀ k ∈ known, k ∈ knownNames)
    (hj : j.IsFaithful knownNames) (hs : record required rules j) (h : decodeFields known set cur j = some x)
    (hcur : P [] cur)
    (hset : ∀ seen a k v b, P seen a → k ∈ known → k ∉ seen → v.IsFaithful knownNames → v.nesting < j.nesting →
      (∀ rule, (k, rule) ∈ rules → rule v) → set a k v = some b → P (k :: seen) b) :
    ∃ seen, (∀ name ∈ required, name ∈ known → name ∈ seen) ∧ P seen x := by
  obtain ⟨fs, rfl, hrequired, hrules⟩ := exists_of_record hs hj.unrepeated
  refine ⟨_, fun name hname hk => ?_, decodeFields_induction isFieldName_of_mem_knownNames hknown hj h hcur
    fun seen a k v b ha hk hnew hv hb => ?_⟩
  · simpa using ⟨by simpa using hrequired name hname, hk⟩
  · exact hset seen a k v b ha hk hnew (hj.of_mem_object hv) (Nat.lt_succ_of_le (nesting_le_nestingOfFields hv))
      (fun rule hrule => hrules k v rule hv hrule) hb

lemma record_invariant {P : α → Prop} (hknown : ∀ k ∈ known, k ∈ knownNames) (hj : j.IsFaithful knownNames)
    (hs : record required rules j) (h : decodeFields known set cur j = some x) (hcur : P cur)
    (hset : ∀ a k v b, P a → k ∈ known → v.IsFaithful knownNames → v.nesting < j.nesting →
      (∀ rule, (k, rule) ∈ rules → rule v) → set a k v = some b → P b) : P x := by
  obtain ⟨-, -, hx⟩ := record_induction (P := fun _ => P) hknown hj hs h hcur fun _ a k v b ha hk _ => hset a k v b ha hk
  exact hx

end Schema

end Report

open Report Report.Schema

namespace Report.Schema

lemma nonneg_of_decodeInt {cur n : Int} {j : Json} (hs : natural j) (h : decodeInt cur j = some n) : 0 ≤ n := by
  cases j with
  | number s =>
    rw [natural, Bool.and_eq_true, Bool.not_eq_true'] at hs
    have hn : (Json.number s).int? = some n := (filter_eq_some_iff.1 h).1
    rw [int?] at hn
    split at hn
    · next ds hds =>
      obtain ⟨m, hm, rfl⟩ := map_eq_some_iff.1 hn
      rw [digits?] at hm
      split at hm
      · next hdigits =>
        obtain rfl := Option.some.inj hm
        have hneg := hs.2
        rw [Bool.and_eq_true, List.all_eq_true] at hdigits
        have hmantissa : mantissa ('-' :: ds) = ds := mantissa_minus hdigits.2
        rw [hds, isNegative, hmantissa, List.head?_cons, beq_self_eq_true, Bool.true_and, List.any_eq_false] at hneg
        have hzero : Nat.ofDigitChars 10 ds 0 = 0 := ofDigitChars_eq_zero fun c hc => by simpa using hneg c hc
        omega
      · cases hm
    · obtain ⟨m, -, rfl⟩ := map_eq_some_iff.1 hn
      exact Int.natCast_nonneg m
  | _ => cases hs

lemma of_decodeText {test : String → Bool} {cur s : String} {j : Json} (hs : text test j)
    (h : decodeText cur j = some s) : test s := by
  cases j with
  | string t => exact some.inj h ▸ hs
  | _ => cases hs

lemma of_mem_list {item : Rule} {xs : List Json} (hs : list item (.array xs)) {x : Json} (hx : x ∈ xs) :
    item x = true := all_eq_true.1 hs x hx

end Report.Schema

/-! ### Locations -/

section

variable (hj : j.IsFaithful knownNames)
include hj

lemma Location.isStorable_of_decode {cur l : Option Location} (hs : Schema.location j)
    (hcur : ∀ x, cur = some x → x.IsStorable) (h : decode cur j = some l) : ∀ x, l = some x → x.IsStorable := by
  have hstart : (cur.getD ⟨"", 0, 0⟩).IsStorable := by
    cases cur with
    | none => exact ⟨by decide, by decide, by decide, by decide, by decide⟩
    | some x => exact hcur x rfl
  obtain ⟨fs, rfl, -⟩ := exists_of_record hs hj.unrepeated
  obtain ⟨x, hx, rfl⟩ := map_eq_some_iff.1 (show Option.map some _ = some l from h)
  rintro _ ⟨⟩
  refine record_invariant (by decide) hj hs hx hstart fun a k v b ha hk hv _ hrule hb => ?_
  fin_cases hk <;> obtain ⟨y, hy, rfl⟩ := map_eq_some_iff.1 hb
  · exact { ha with path := hv.isValid ha.path hy }
  · exact { ha with
      line_nonneg := nonneg_of_decodeInt (hrule natural (by simp)) hy
      line_isLong := isLong_of_decodeInt ha.line_isLong hy }
  · exact { ha with
      column_nonneg := nonneg_of_decodeInt (hrule natural (by simp)) hy
      column_isLong := isLong_of_decodeInt ha.column_isLong hy }

/-! ### Sessions and runs -/

lemma Session.isStorable_of_decode {cur s : Session} (hs : session j)
    (hcur : cur.IsStorable) (h : decode cur j = some s) : s.IsStorable := by
  refine record_invariant (by decide) hj hs h hcur fun a k v b ha hk hv _ _ hb => ?_
  fin_cases hk <;> obtain ⟨y, hy, rfl⟩ := map_eq_some_iff.1 hb
  · exact { ha with toolVersion := hv.isValid ha.toolVersion hy }
  · exact { ha with hostname := hv.isValid ha.hostname hy }
  · exact { ha with os := hv.isValid ha.os hy }
  · exact { ha with arch := hv.isValid ha.arch hy }
  · exact { ha with platform := hv.isValid ha.platform hy }
  · exact { ha with runtimeVersion := hv.isValid ha.runtimeVersion hy }
  · exact { ha with revision := hv.isValid ha.revision hy }
  · exact { ha with }

lemma Json.isValid_of_decodeList {ss : List String} (h : decodeList (decodeText "") j = some ss) :
    ∀ s ∈ ss, Text.IsValid s := by
  intro s hs
  obtain ⟨xs, rfl, x, hx, hxs⟩ := exists_of_mem_decodeList h hs
  exact (hj.of_mem_array hx).isValid (by decide) hxs

lemma ModuleRun.isStorable_of_decode {r : ModuleRun} (hs : run j) (h : decode j = some r) : r.IsStorable := by
  -- the outcome is a required field: it need not be one of the known ones before it was seen
  let P (seen : List String) (r : ModuleRun) : Prop :=
    IsStorable { r with outcome := .success } ∧ ("outcome" ∈ seen → r.outcome ∈ Outcome.known)
  have hcur : P [] { name := "" } := ⟨by constructor <;> decide, nofun⟩
  suffices hfields : ∃ seen, (∀ name ∈ ["name", "categories", "outcome"], name ∈ fieldNames → name ∈ seen) ∧ P seen r by
    obtain ⟨seen, hseen, hr, ho⟩ := hfields
    exact { hr with outcome := ho (hseen "outcome" (by simp) (by decide)) }
  refine record_induction (by decide) hj hs h hcur ?_
  rintro seen a k v b ⟨ha, ho⟩ hk - hv - hrule hb
  fin_cases hk
  · obtain ⟨y, hy, rfl⟩ := map_eq_some_iff.1 hb
    exact ⟨{ ha with name := hv.isValid ha.name hy }, by simpa using ho⟩
  · have hb : (if v.isNull then _ else _) = some b := hb
    split at hb
    · cases hb
      exact ⟨{ ha with categories := nofun }, by simpa using ho⟩
    · obtain ⟨ss, hss, rfl⟩ := map_eq_some_iff.1 hb
      have hvalid : ∀ c ∈ ss.map Category.mk, Text.IsValid c.name := forall_mem_map.2 (isValid_of_decodeList hv hss)
      exact ⟨{ ha with categories := hvalid }, by simpa using ho⟩
  iterate 2
    obtain ⟨y, hy, rfl⟩ := map_eq_some_iff.1 hb
    exact ⟨{ ha with }, by simpa using ho⟩
  · obtain ⟨y, hy, rfl⟩ := map_eq_some_iff.1 hb
    have hknown := of_decodeText (hrule (text fun s => Outcome.known.contains ⟨s⟩) (by simp)) hy
    exact ⟨{ ha with }, fun _ => contains_iff_mem.1 hknown⟩
  · obtain ⟨y, hy, rfl⟩ := map_eq_some_iff.1 hb
    exact ⟨{ ha with error := hv.isValid ha.error hy }, by simpa using ho⟩

/-! ### Settings -/

lemma Descriptor.isStorable_of_decode {d : Descriptor} (hs : Schema.descriptor j) (h : decode j = some d) :
    d.IsStorable := by
  have hcur : IsStorable { id := "", title := "" } := by constructor <;> decide
  refine record_invariant (by decide) hj hs h hcur fun a k v b ha hk hv _ hrule hb => ?_
  fin_cases hk <;>
    obtain ⟨y, hy, rfl⟩ := map_eq_some_iff.1 hb
  · exact { ha with }
  · exact { ha with title := hv.isValid ha.title hy }
  · exact { ha with messageFormat := hv.isValid ha.messageFormat hy }
  · exact { ha with defaultSeverity := of_decodeText (hrule severity (by simp)) hy }
  · exact { ha with areas := forall_mem_map.2 (isValid_of_decodeList hv hy) }
  · exact { ha with platforms := forall_mem_map.2 (isValid_of_decodeList hv hy) }
  · exact { ha with minVersion := hv.isValid ha.minVersion hy }
  · exact { ha with maxVersion := hv.isValid ha.maxVersion hy }
  · exact { ha with description := hv.isValid ha.description hy }
  · exact { ha with recommendation := hv.isValid ha.recommendation hy }
  · exact { ha with documentationUrl := hv.isValid ha.documentationUrl hy }
  · exact { ha with typeName := hv.isValid ha.typeName hy }
  · exact { ha with method := hv.isValid ha.method hy }
  · exact { ha with opcode := hv.isValid ha.opcode hy }

lemma ParamLayer.isStorable_of_decodeValue {x : String × Int}
    (hs : record ["name", "value"] [("name", nonemptyText), ("value", integer)] j)
    (h : decodeValue j = some x) : (Text.IsValid x.1 ∧ x.1 ≠ "") ∧ Pack.IsLong x.2 := by
  let P (seen : List String) (x : String × Int) : Prop :=
    Text.IsValid x.1 ∧ Pack.IsLong x.2 ∧ ("name" ∈ seen → x.1 ≠ "")
  have hcur : P [] ("", 0) := ⟨by decide, by decide, nofun⟩
  suffices hfields : ∃ seen, (∀ name ∈ ["name", "value"], name ∈ ["name", "value"] → name ∈ seen) ∧ P seen x by
    obtain ⟨seen, hseen, hname, hvalue, hne⟩ := hfields
    exact ⟨⟨hname, hne (hseen "name" (by simp) (by simp))⟩, hvalue⟩
  refine record_induction (by decide) hj hs h hcur ?_
  rintro seen a k v b ⟨hname, hvalue, hne⟩ hk - hv - hrule hb
  fin_cases hk <;> obtain ⟨y, hy, rfl⟩ := map_eq_some_iff.1 hb
  · have hnonempty := of_decodeText (hrule nonemptyText (by simp)) hy
    exact ⟨hv.isValid hname hy, hvalue, fun _ => by simpa using hnonempty⟩
  · exact ⟨hname, isLong_of_decodeInt hvalue hy, by simpa using hne⟩

lemma ParamLayer.isStorable_of_decode {l : ParamLayer} (hs : layer j) (h : decode j = some l) : l.IsStorable := by
  have hcur : IsStorable ⟨Platform.default, []⟩ := ⟨by decide, nofun, nofun⟩
  refine record_invariant (by decide) hj hs h hcur fun a k v b ha hk hv _ hrule hb => ?_
  fin_cases hk <;> obtain ⟨y, hy, rfl⟩ := map_eq_some_iff.1 hb
  · exact { ha with platform := hv.isValid ha.platform hy }
  · have hvalues : ∀ x ∈ y, (Text.IsValid x.1 ∧ x.1 ≠ "") ∧ Pack.IsLong x.2 := by
      intro x hx
      obtain ⟨xs, rfl, w, hw, hwx⟩ := exists_of_mem_decodeList hy hx
      exact isStorable_of_decodeValue (hv.of_mem_array hw) (of_mem_list (hrule _ (by simp)) hw) hwx
    exact { ha with names := fun x hx => (hvalues x hx).1, values := fun x hx => (hvalues x hx).2 }

lemma Rule.isStorable_of_decode {r : Rule} (hs : rule j) (h : decode j = some r) : r.IsStorable := by
  have hcur : IsStorable { id := "", severity := Severity.default } := by constructor <;> decide
  refine record_invariant (by decide) hj hs h hcur fun a k v b ha hk hv _ hrule hb => ?_
  fin_cases hk <;> obtain ⟨y, hy, rfl⟩ := map_eq_some_iff.1 hb
  · exact { ha with id := hv.isValid ha.id hy }
  · exact { ha with filter := hv.isValid ha.filter hy }
  · exact { ha with severity := of_decodeText (hrule Schema.severity (by simp)) hy }

end

namespace CallNode

variable {cs : List CallNode} {j : Json}

lemma decodeItems_eq_mapM (xs : List Json) :
    decodeItems xs = xs.mapM fun x => if x.isNull then some .gap else decodeOver (named "") x := by
  induction xs with
  | nil => rfl
  | cons x xs ih =>
    rw [decodeItems, ih, mapM_cons]
    cases x.isNull <;> rfl

lemma childrenToJson_eq_map (cs : List CallNode) : childrenToJson cs = cs.map toJson := by
  induction cs with
  | nil => rfl
  | cons c cs ih => rw [childrenToJson, ih, map_cons]

lemma areStorable_iff : AreStorable cs ↔ ∀ c ∈ cs, c.IsStorable :=
  Pack.iff_forall_mem trivial fun _ _ => .rfl

lemma anyGap_eq_false_iff : anyGap cs = false ↔ ∀ c ∈ cs, c.hasGap = false :=
  Pack.iff_forall_mem (F := (anyGap · = false)) rfl fun _ _ => Bool.or_eq_false_iff

/-- What holds of a frame while it is read from a value that nests so deep. -/
structure IsLoaded (depth : Nat) (c : CallNode) : Prop where
  storable : c.IsStorable
  complete : c.hasGap = false
  location : c.location ≠ none → 2 ≤ depth
  children : ∀ x ∈ c.children, x.toJson.nesting + 2 ≤ depth

lemma isLoaded_named (depth : Nat) : IsLoaded depth (named "") :=
  ⟨⟨by decide, by decide, by decide, by decide, nofun, trivial⟩, rfl, fun h => (h rfl).elim, nofun⟩

lemma IsLoaded.nesting_le {depth : Nat} {c : CallNode} (h : c.IsLoaded depth) (hdepth : 0 < depth) :
    c.toJson.nesting ≤ depth := by
  cases c with
  | gap => exact Nat.zero_le _
  | mk n t m o l cs b =>
    obtain ⟨below, rfl⟩ : ∃ below, depth = below + 1 := ⟨depth - 1, by omega⟩
    have hlocation : ∀ x, l = some x → x.toJson.nesting ≤ below := by
      rintro x rfl
      exact (Location.nesting_toJson_le x).trans (Nat.le_of_succ_le_succ (h.location nofun))
    have hchildren : cs ≠ [] → (Json.array (childrenToJson cs)).nesting ≤ below := by
      intro hne
      obtain ⟨c, hc⟩ := exists_mem_of_ne_nil cs hne
      have hc := h.children c hc
      have hitems : nestingOfItems (childrenToJson cs) ≤ below - 1 := by
        rw [childrenToJson_eq_map]
        refine nestingOfItems_le_iff.2 (forall_mem_map.2 fun x hx => ?_)
        have hx := h.children x hx
        omega
      rw [nesting]
      omega
    have hcallers : childrenToJson cs ≠ [] → (Json.array (childrenToJson cs)).nesting ≤ below := fun hne =>
      hchildren fun hnil => hne (by rw [hnil, childrenToJson])
    rw [toJson]
    refine nesting_compactFields_le ?_
    simpa [nesting] using ⟨hlocation, hcallers⟩

lemma of_mem_decodeChildren {item : Report.Schema.Rule} {depth : Nat}
    (hitem : ∀ {x : Json} {c : CallNode}, x.IsFaithful knownNames → item x →
      decodeOver (named "") x = some c → c.IsLoaded x.nesting) (hobject : ∀ {x : Json}, item x → 0 < x.nesting)
    (hj : j.IsFaithful knownNames) (hs : list item j) (hdepth : j.nesting < depth)
    (h : decodeChildren j = some cs) : ∀ c ∈ cs, c.IsStorable ∧ c.hasGap = false ∧ c.toJson.nesting + 2 ≤ depth := by
  cases j with
  | array xs =>
    intro c hc
    rw [decodeChildren, decodeItems_eq_mapM] at h
    obtain ⟨x, hx, hxc⟩ := Pack.exists_of_mem_mapM h hc
    have hpass := of_mem_list hs hx
    have hpos := hobject hpass
    have hnull : x.isNull = false := by
      cases x with
      | null => cases hpos
      | _ => rfl
    rw [hnull, if_neg Bool.false_ne_true] at hxc
    have hloaded := hitem (hj.of_mem_array hx) hpass hxc
    have hnested := hloaded.nesting_le hpos
    have hin : x.nesting + 1 ≤ (Json.array xs).nesting := Nat.succ_le_succ (nesting_le_nestingOfItems hx)
    exact ⟨hloaded.storable, hloaded.complete, by omega⟩
  | _ => cases hs

lemma nesting_pos_of_node {fuel : Nat} (h : node fuel j) : 0 < j.nesting := by
  cases fuel with
  | zero => cases h
  | succ n =>
    cases j with
    | object fs => exact Nat.succ_pos _
    | _ => cases h

/-- A frame is read from a value that passes its rule. The induction is on the fuel of the rule. -/
lemma isLoaded_of_decodeOver (fuel : Nat) {c : CallNode} (hj : j.IsFaithful knownNames) (hs : node fuel j)
    (h : decodeOver (named "") j = some c) : c.IsLoaded j.nesting := by
  induction fuel generalizing j c with
  | zero => cases hs
  | succ n ih =>
    rw [node] at hs
    rw [decodeOver_eq] at h
    refine record_invariant (by decide) hj hs h (isLoaded_named _) fun a k v b ha hk hv hdepth hrule hb => ?_
    cases a with
    | gap => exact some.inj hb ▸ ha
    | mk name typeName methodName moduleName l cs t =>
      obtain ⟨⟨hname, htype, hmethod, hmodule, hl, hcs⟩, hgap, hlocation, hchildren⟩ := ha
      fin_cases hk <;> obtain ⟨y, hy, rfl⟩ := map_eq_some_iff.1 hb
      · exact ⟨⟨hv.isValid hname hy, htype, hmethod, hmodule, hl, hcs⟩, hgap, hlocation, hchildren⟩
      · exact ⟨⟨hname, hv.isValid htype hy, hmethod, hmodule, hl, hcs⟩, hgap, hlocation, hchildren⟩
      · exact ⟨⟨hname, htype, hv.isValid hmethod hy, hmodule, hl, hcs⟩, hgap, hlocation, hchildren⟩
      · exact ⟨⟨hname, htype, hmethod, hv.isValid hmodule hy, hl, hcs⟩, hgap, hlocation, hchildren⟩
      · have hrule := hrule Schema.location (by simp)
        have hl' := Location.isStorable_of_decode hv hrule hl hy
        obtain ⟨fs, rfl, -⟩ := exists_of_record hrule hv.unrepeated
        exact ⟨⟨hname, htype, hmethod, hmodule, hl', hcs⟩, hgap, fun _ => Nat.lt_of_le_of_lt (Nat.le_add_left ..) hdepth,
          hchildren⟩
      · have hitems : ∀ x ∈ y, x.IsStorable ∧ x.hasGap = false ∧ x.toJson.nesting + 2 ≤ j.nesting :=
          of_mem_decodeChildren ih nesting_pos_of_node hv (hrule _ (by simp)) hdepth hy
        exact ⟨⟨hname, htype, hmethod, hmodule, hl, areStorable_iff.2 fun x hx => (hitems x hx).1⟩,
          anyGap_eq_false_iff.2 fun x hx => (hitems x hx).2.1, hlocation, fun x hx => (hitems x hx).2.2⟩
      · exact ⟨⟨hname, htype, hmethod, hmodule, hl, hcs⟩, hgap, hlocation, hchildren⟩

lemma of_decode {fuel : Nat} {c : Option CallNode} (hj : j.IsFaithful knownNames) (hs : node fuel j)
    (h : decode none j = some c) :
    ∀ n, c = some n → n.IsStorable ∧ n.hasGap = false ∧ n.toJson.nesting ≤ j.nesting := by
  have hpos := nesting_pos_of_node hs
  cases j with
  | object fs =>
    obtain ⟨n, hn, rfl⟩ := map_eq_some_iff.1 (show Option.map some _ = some c from h)
    rintro _ ⟨⟩
    have hloaded := isLoaded_of_decodeOver fuel hj hs hn
    exact ⟨hloaded.storable, hloaded.complete, hloaded.nesting_le hpos⟩
  | array xs => cases h
  | _ => cases hpos

end CallNode

namespace Issue

/-- What holds of an issue that is read from a value that nests so deep. -/
structure IsLoaded (depth : Nat) (i : Issue) : Prop where
  storable : i.IsStorable
  complete : i.IsComplete
  callers : ∀ c, i.dependencies = some c → c.toJson.nesting + 1 ≤ depth

lemma IsLoaded.mono {depth depth' : Nat} {i : Issue} (h : i.IsLoaded depth) (hle : depth ≤ depth') :
    i.IsLoaded depth' :=
  ⟨h.storable, h.complete, fun c hc => (h.callers c hc).trans hle⟩

lemma isLoaded_of_decode {i : Issue} {j : Json} (hj : j.IsFaithful knownNames) (hs : issue j)
    (h : decode j = some i) : i.IsLoaded j.nesting := by
  -- a category may be empty before it was seen; nothing is read over a caller tree
  let P (seen : List String) (i : Issue) : Prop :=
    IsLoaded j.nesting { i with category := .code } ∧ Text.IsValid i.category.name ∧
      ("category" ∈ seen → i.category.name ≠ "") ∧ ("dependencies" ∉ seen → i.dependencies = none)
  have hcur : P [] { category := ⟨""⟩, description := "" } :=
    ⟨⟨⟨by decide, by decide, by decide, by decide, by decide, nofun, nofun, nofun⟩, nofun, nofun⟩,
      by decide, nofun, fun _ => rfl⟩
  suffices hfields : ∃ seen, (∀ name ∈ ["category", "description"], name ∈ fieldNames → name ∈ seen) ∧ P seen i by
    obtain ⟨seen, hseen, hi, hvalid, hne, -⟩ := hfields
    have hcategory := hne (hseen "category" (by simp) (by decide))
    exact ⟨{ hi.storable with category := hvalid, category_ne := hcategory }, hi.complete, hi.callers⟩
  refine record_induction (by decide) hj hs h hcur ?_
  rintro seen a k v b ⟨ha, hvalid, hne, hnone⟩ hk hnew hv hdepth hrule hb
  fin_cases hk <;> obtain ⟨y, hy, rfl⟩ := map_eq_some_iff.1 hb
  · have hnonempty := of_decodeText (hrule nonemptyText (by simp)) hy
    exact ⟨ha, hv.isValid hvalid hy, fun _ => by simpa using hnonempty, by simpa using hnone⟩
  · have hseverity := of_decodeText (hrule Schema.severity (by simp)) hy
    exact ⟨{ ha with storable := { ha.storable with severity := hseverity } }, hvalid, by simpa using hne,
      by simpa using hnone⟩
  · have hdescription := hv.isValid ha.storable.description hy
    exact ⟨{ ha with storable := { ha.storable with description := hdescription } }, hvalid, by simpa using hne,
      by simpa using hnone⟩
  · have hid := hv.isValid ha.storable.descriptorId hy
    exact ⟨{ ha with storable := { ha.storable with descriptorId := hid } }, hvalid, by simpa using hne,
      by simpa using hnone⟩
  · rw [hnone hnew] at hy
    have hcallers := CallNode.of_decode hv (hrule (fun j => node (depth j) j) (by simp)) hy
    exact ⟨⟨{ ha.storable with dependencies := fun n hn => (hcallers n hn).1 }, fun n hn => (hcallers n hn).2.1,
      fun n hn => Nat.lt_of_le_of_lt (hcallers n hn).2.2 hdepth⟩, hvalid, by simpa using hne, by simp⟩
  · have hlocation := Location.isStorable_of_decode hv (hrule Schema.location (by simp)) ha.storable.location hy
    exact ⟨{ ha with storable := { ha.storable with location := hlocation } }, hvalid, by simpa using hne,
      by simpa using hnone⟩
  · have hproperties := isValid_of_decodeList hv hy
    exact ⟨{ ha with storable := { ha.storable with properties := hproperties } }, hvalid, by simpa using hne,
      by simpa using hnone⟩
  · exact ⟨{ ha with storable := { ha.storable with } }, hvalid, by simpa using hne, by simpa using hnone⟩

end Issue

namespace Report.Parts

lemma of_decodeOptional {α : Type} {item : Json → Option α} {j : Json} {x : α}
    (h : decodeOptional item j = some (some x)) : item j = some x := by
  cases j with
  | null => cases h
  | bool | number | string | array | object =>
    obtain ⟨y, hy, hyx⟩ := map_eq_some_iff.1 h
    exact some.inj hyx ▸ hy

lemma exists_of_mem_decodeOptionals {α : Type} {item : Json → Option α} {j : Json} {xs : List (Option α)}
    (h : decodeList (decodeOptional item) j = some xs) {x : α} (hx : some x ∈ xs) :
    ∃ js, j = .array js ∧ ∃ y ∈ js, item y = some x := by
  obtain ⟨js, rfl, y, hy, hyx⟩ := exists_of_mem_decodeList h hx
  exact ⟨js, rfl, y, hy, of_decodeOptional hyx⟩

/-- What holds of the parts that are read from a document that nests so deep. -/
structure IsLoaded (depth : Nat) (p : Parts) : Prop where
  session : p.session.IsStorable
  descriptors : ∀ d, some d ∈ p.descriptors → d.IsStorable
  layers : ∀ l ∈ p.layers, l.IsStorable
  rules : ∀ r ∈ p.rules, r.IsStorable
  runs : ∀ r ∈ p.runs, r.IsStorable
  unfixed : ∀ i, some i ∈ p.unfixed → i.IsLoaded (depth - 3)
  fixed : ∀ i, some i ∈ p.fixed → i.IsLoaded (depth - 3)

lemma isLoaded_of_setSettings {depth : Nat} {p q : Parts} {name : String} {v : Json} (hp : p.IsLoaded depth)
    (hname : name ∈ ["params", "rules"]) (hv : v.IsFaithful knownNames)
    (hrule : ∀ x, (name, x) ∈ [("params", list layer), ("rules", list Schema.rule)] → x v)
    (h : setSettings p name v = some q) : q.IsLoaded depth := by
  fin_cases hname <;> obtain ⟨ys, hys, rfl⟩ := map_eq_some_iff.1 h
  · refine { hp with layers := fun l hl => ?_ }
    obtain ⟨js, rfl, y, hy, hyl⟩ := exists_of_mem_decodeList hys hl
    exact ParamLayer.isStorable_of_decode (hv.of_mem_array hy) (of_mem_list (hrule (list layer) (by simp)) hy) hyl
  · refine { hp with rules := fun r hr => ?_ }
    obtain ⟨js, rfl, y, hy, hyr⟩ := exists_of_mem_decodeList hys hr
    exact Rule.isStorable_of_decode (hv.of_mem_array hy) (of_mem_list (hrule (list Schema.rule) (by simp)) hy) hyr

lemma isLoaded_of_decodeIssues {depth : Nat} {v : Json} {is : List (Option Issue)} (hv : v.IsFaithful knownNames)
    (hs : list issue v) (hdepth : v.nesting ≤ depth + 1)
    (h : decodeList (decodeOptional Issue.decode) v = some is) : ∀ i, some i ∈ is → i.IsLoaded depth := by
  intro i hi
  obtain ⟨js, rfl, y, hy, hyi⟩ := exists_of_mem_decodeOptionals h hi
  have hnested : y.nesting ≤ depth := (nesting_le_nestingOfItems hy).trans (Nat.le_of_succ_le_succ hdepth)
  exact (Issue.isLoaded_of_decode (hv.of_mem_array hy) (of_mem_list hs hy) hyi).mono hnested

lemma isLoaded_of_setIssues {depth : Nat} {p q : Parts} {name : String} {v : Json} (hp : p.IsLoaded depth)
    (hname : name ∈ ["unfixed", "fixed"]) (hv : v.IsFaithful knownNames) (hdepth : v.nesting ≤ depth - 3 + 1)
    (hrule : ∀ x, (name, x) ∈ [("unfixed", list issue), ("fixed", list issue)] → x v)
    (h : setIssues p name v = some q) : q.IsLoaded depth := by
  fin_cases hname <;> obtain ⟨is, his, rfl⟩ := map_eq_some_iff.1 h
  · exact { hp with unfixed := isLoaded_of_decodeIssues hv (hrule (list issue) (by simp)) hdepth his }
  · exact { hp with fixed := isLoaded_of_decodeIssues hv (hrule (list issue) (by simp)) hdepth his }

lemma isLoaded_of_decodePlain {p : Parts} {j : Json} (hj : j.IsFaithful knownNames) (hs : Schema.document j)
    (h : decodePlain j = some p) : p.IsLoaded j.nesting := by
  have hcur : IsLoaded j.nesting {} := ⟨by constructor <;> decide, nofun, nofun, nofun, nofun, nofun, nofun⟩
  refine record_invariant (by decide) hj hs h hcur fun a k v b ha hk hv hdepth hrule hb => ?_
  fin_cases hk
  · obtain ⟨y, -, rfl⟩ := map_eq_some_iff.1 hb
    exact ha
  · obtain ⟨y, hy, rfl⟩ := map_eq_some_iff.1 hb
    exact { ha with session := Session.isStorable_of_decode hv (hrule Schema.session (by simp)) ha.session hy }
  · obtain ⟨ds, hds, rfl⟩ := map_eq_some_iff.1 hb
    refine { ha with descriptors := fun d hd => ?_ }
    obtain ⟨js, rfl, y, hy, hyd⟩ := exists_of_mem_decodeOptionals hds hd
    have hlist : list Schema.descriptor (.array js) := hrule (listOrNull Schema.descriptor) (by simp)
    exact Descriptor.isStorable_of_decode (hv.of_mem_array hy) (of_mem_list hlist hy) hyd
  · have hs : Schema.record ["params", "rules"] [("params", list layer), ("rules", list Schema.rule)] v :=
      hrule _ (by simp)
    refine record_invariant (by decide) hv hs hb ha fun c k w d hc hk hw _ hrule hd => ?_
    exact isLoaded_of_setSettings hc hk hw hrule hd
  · obtain ⟨rs, hrs, rfl⟩ := map_eq_some_iff.1 hb
    refine { ha with runs := fun r hr => ?_ }
    obtain ⟨js, rfl, y, hy, hyr⟩ := exists_of_mem_decodeList hrs hr
    exact ModuleRun.isStorable_of_decode (hv.of_mem_array hy) (of_mem_list (hrule (list run) (by simp)) hy) hyr
  · have hs : Schema.record ["unfixed", "fixed"] [("unfixed", list issue), ("fixed", list issue)] v := hrule _ (by simp)
    refine record_invariant (by decide) hv hs hb ha fun c k w d hc hk hw hin hrule hd => ?_
    exact isLoaded_of_setIssues hc hk hw (by omega) hrule hd

end Report.Parts

/-! ### Times -/

def Instant.IsLoaded (t : Instant) : Prop := t.offset.natAbs < 24 * 3600 → t.IsStandard

lemma Instant.isLoaded_of_decode {cur t : Instant} (hcur : cur.IsLoaded) (h : decode cur j = some t) :
    t.IsLoaded := by
  cases j with
  | null => exact some.inj h ▸ hcur
  | string s => exact isStandard_of_parse? h
  | bool | number | array | object => cases h

lemma Instant.isLoaded_unset : unset.IsLoaded := fun _ => ⟨by decide, by decide⟩

lemma Session.isLoaded_of_decode {cur s : Session} (hcur : cur.timestamp.IsLoaded) (h : decode cur j = some s) :
    s.timestamp.IsLoaded := by
  refine decodeFields_invariant (P := fun s => s.timestamp.IsLoaded) h hcur fun a k v b ha hk _ hb => ?_
  fin_cases hk <;> obtain ⟨y, hy, rfl⟩ := map_eq_some_iff.1 hb
  iterate 7 exact ha
  exact Instant.isLoaded_of_decode ha hy

lemma ModuleRun.isLoaded_of_decode {r : ModuleRun} {j : Json} (h : decode j = some r) :
    r.start.IsLoaded ∧ r.finish.IsLoaded := by
  refine decodeFields_invariant (P := fun r => r.start.IsLoaded ∧ r.finish.IsLoaded) h
    ⟨Instant.isLoaded_unset, Instant.isLoaded_unset⟩ fun a k v b ha hk _ hb => ?_
  fin_cases hk
  · obtain ⟨y, hy, rfl⟩ := map_eq_some_iff.1 hb
    exact ha
  · have hb : (if v.isNull then _ else _) = some b := hb
    split at hb
    · exact some.inj hb ▸ ha
    · obtain ⟨ss, -, rfl⟩ := map_eq_some_iff.1 hb
      exact ha
  · obtain ⟨y, hy, rfl⟩ := map_eq_some_iff.1 hb
    exact ⟨Instant.isLoaded_of_decode ha.1 hy, ha.2⟩
  · obtain ⟨y, hy, rfl⟩ := map_eq_some_iff.1 hb
    exact ⟨ha.1, Instant.isLoaded_of_decode ha.2 hy⟩
  all_goals
    obtain ⟨y, -, rfl⟩ := map_eq_some_iff.1 hb
    exact ha

namespace Report

variable {text : String}

namespace Parts

def AreTimesLoaded (p : Parts) : Prop :=
  p.session.timestamp.IsLoaded ∧ ∀ r ∈ p.runs, r.start.IsLoaded ∧ r.finish.IsLoaded

lemma areTimesLoaded_of_decodePlain {p : Parts} {j : Json} (h : decodePlain j = some p) : p.AreTimesLoaded := by
  refine decodeFields_invariant h ⟨Instant.isLoaded_unset, nofun⟩ fun a k v b ha hk _ hb => ?_
  fin_cases hk
  · obtain ⟨y, -, rfl⟩ := map_eq_some_iff.1 hb
    exact ha
  · obtain ⟨y, hy, rfl⟩ := map_eq_some_iff.1 hb
    exact ⟨Session.isLoaded_of_decode ha.1 hy, ha.2⟩
  · obtain ⟨y, -, rfl⟩ := map_eq_some_iff.1 hb
    exact ha
  · refine decodeFields_invariant hb ha fun c k w d hc hk _ hd => ?_
    fin_cases hk <;> obtain ⟨y, -, rfl⟩ := map_eq_some_iff.1 hd <;> exact hc
  · obtain ⟨rs, hrs, rfl⟩ := map_eq_some_iff.1 hb
    refine ⟨ha.1, fun r hr => ?_⟩
    obtain ⟨js, rfl, y, -, hy⟩ := exists_of_mem_decodeList hrs hr
    exact ModuleRun.isLoaded_of_decode hy
  · refine decodeFields_invariant hb ha fun c k w d hc hk _ hd => ?_
    fin_cases hk <;> obtain ⟨y, -, rfl⟩ := map_eq_some_iff.1 hd <;> exact hc

lemma decode_eq_decodePlain {j : Json} (h : j.isRepeating = false) : decode j = decodePlain j := by
  rw [decode, h]
  cases decodePlain j <;> rfl

lemma exists_decodePlain_of_decode {p : Parts} {j : Json} (h : decode j = some p) :
    ∃ j', decodePlain j' = some p ∧ (j.isRepeating = false → j' = j) := by
  obtain ⟨q, hq, h⟩ := bind_eq_some_iff.1 h
  split at h
  · next hrepeating => exact ⟨_, h, fun hnot => by rw [hnot] at hrepeating; cases hrepeating⟩
  · exact ⟨j, h ▸ hq, fun _ => rfl⟩

lemma exists_of_report {p : Parts} {r : Report} (h : p.report = .ok r) : ∃ ds is catalog,
    present p.descriptors = .ok ds ∧ present (p.unfixed ++ p.fixed) = .ok is ∧
      Catalog.empty.registerAll ((p.descriptors.takeWhile Option.isSome).filterMap id) = (catalog, .ok ()) ∧
      r = { session := p.session, issues := is, runs := p.runs, catalog
            params := { Params.ofLayers p.layers with platform := p.session.platform }
            rules := RuleSet.ofList p.rules } := by
  rw [report] at h
  split at h
  · cases h
  · next catalog _ hcatalog =>
    cases hds : present p.descriptors with
    | error f => rw [hds] at h; cases h
    | ok ds =>
      cases his : present (p.unfixed ++ p.fixed) with
      | error f => rw [hds, his] at h; cases h
      | ok is =>
        rw [hds, his] at h
        exact ⟨ds, is, catalog, rfl, rfl, hcatalog, (Except.ok.inj h).symm⟩

end Parts

lemma read_eq {j : Json} {p : Parts} (hj : wellFormed? text = some j) (hp : Parts.decode j = some p) :
    read text = p.report := by
  simp only [read, hj, hp]

lemma exists_of_read {r : Report} (h : read text = .ok r) :
    ∃ j p, wellFormed? text = some j ∧ Parts.decode j = some p ∧ p.report = .ok r := by
  rw [read] at h
  split at h
  · cases h
  · next j hj =>
    split at h
    · cases h
    · next p hp => exact ⟨j, p, hj, hp, h⟩

lemma isLoaded_of_read {r : Report} (h : read text = .ok r) : ∀ t ∈ r.times, t.IsLoaded := by
  obtain ⟨j, p, -, hp, hr⟩ := exists_of_read h
  obtain ⟨j', hj', -⟩ := Parts.exists_decodePlain_of_decode hp
  obtain ⟨hsession, hruns⟩ := Parts.areTimesLoaded_of_decodePlain hj'
  obtain ⟨ds, is, catalog, -, -, -, rfl⟩ := Parts.exists_of_report hr
  intro t ht
  rcases mem_cons.1 ht with rfl | ht
  · exact hsession
  · obtain ⟨run, hrun, ht⟩ := mem_flatMap.1 ht
    fin_cases ht
    · exact (hruns run hrun).1
    · exact (hruns run hrun).2

end Report

end BytecodeAudit
