import BytecodeAudit.Proofs.Json.Records
import BytecodeAudit.Proofs.Time.InstantText

/-!
# The records of a report document

`IsStorable` says of each record of a report what the schema of documents asks for. Then its form
passes the rule of the schema (`schema_toJson`), is plain (`isPlain_toJson`), and is read back as
the record (`decode_toJson`), where instants have to be standard ones. For caller trees this is an
induction over the tree.
-/

namespace BytecodeAudit

open List

open Json

namespace Report.Schema

variable {fs : List (String × Option Json)}

lemma record_compactFields_iff {names required : List String} (hnames : AreFieldNames names)
    {rules : List (String × Rule)} (hfs : fs.map Prod.fst = names) :
    record required rules (compactFields fs) = true ↔ (∀ name ∈ required, ∃ v, (name, some v) ∈ fs) ∧
      ∀ r ∈ rules, ∀ f ∈ fs, f.1 = r.1 → ∀ v, f.2 = some v → r.2 v := by
  have hnodup : (fs.map Prod.fst).Nodup := hfs ▸ hnames.nodup
  have hrecord : record required rules (compactFields fs) =
      (required.all (fun name => (fs.filterMap fun f => f.2.map (f.1, ·)).any (·.1 == name)) &&
        rules.all fun r => ((compactFields fs).field? r.1).all r.2) := rfl
  rw [hrecord, Bool.and_eq_true, all_eq_true, all_eq_true]
  refine and_congr (forall₂_congr fun name _ => ?_) (forall₂_congr fun r _ => ?_)
  · rw [any_eq_true]
    constructor
    · rintro ⟨f, hf, hk⟩
      exact ⟨f.2, eq_of_beq hk ▸ mem_compactFields.1 hf⟩
    · rintro ⟨v, hv⟩
      exact ⟨(name, v), mem_compactFields.2 hv, beq_self_eq_true name⟩
  · simp only [Option.all_eq_true, field?_compactFields_eq_some_iff hnodup]
    constructor
    · rintro h ⟨k, w⟩ hf rfl v rfl
      exact h v hf
    · exact fun h v hv => h _ hv rfl v rfl

@[simp] lemma anyText_string (s : String) : anyText (.string s) := rfl

@[simp] lemma nonemptyText_string (s : String) : nonemptyText (.string s) ↔ s ≠ "" := bne_iff_ne

@[simp] lemma severity_string (s : String) : severity (.string s) = isSeverity s := rfl

@[simp] lemma flag_bool (b : Bool) : flag (.bool b) := rfl

@[simp] lemma list_array (item : Rule) (xs : List Json) : list item (.array xs) = xs.all item := rfl

lemma list_array_map_iff {β : Type} {item : Rule} {toJson : β → Json} {ys : List β} :
    list item (.array (ys.map toJson)) = true ↔ ∀ y ∈ ys, item (toJson y) := by
  rw [list_array, all_eq_true, forall_mem_map]

lemma isAscii_of_isSeverity {s : String} (h : isSeverity s) : Text.IsAscii s := by
  rw [isSeverity, Bool.or_eq_true, beq_iff_eq, contains_iff_mem] at h
  have hknown : ∀ x ∈ Severity.known, Text.IsAscii x.label := by decide
  rcases h with rfl | h
  · decide
  · exact hknown _ h

lemma isValid_of_isSeverity {s : String} (h : isSeverity s) : Text.IsValid s :=
  (isAscii_of_isSeverity h).isValid

lemma marks_toString {n : Int} {c : Char} (h : c ∈ (toString n).toList) : c ≠ 'e' ∧ c ≠ 'E' ∧ c ≠ '.' := by
  have hmark := isDigit_or_of_mem_toString h
  refine ⟨?_, ?_, ?_⟩
  all_goals
    rintro rfl
    revert hmark
    decide

lemma isWhole_toString (n : Int) : isWhole (toString n).toList := by
  have hexp : ∀ c ∈ (toString n).toList, (c != 'e' && c != 'E') := fun c hc => by
    rw [Bool.and_eq_true, bne_iff_ne, bne_iff_ne]
    exact ⟨(marks_toString hc).1, (marks_toString hc).2.1⟩
  have hdot : ∀ c ∈ (toString n).toList, (c != '.') := fun c hc => bne_iff_ne.2 (marks_toString hc).2.2
  have hfraction : fractionLength (toString n).toList = 0 := by
    rw [fractionLength, takeWhile_eq_self_iff.2 hexp, dropWhile_eq_nil_iff.2 hdot]
    rfl
  have hexponent : exponent (toString n).toList = 0 := by
    rw [exponent, dropWhile_eq_nil_iff.2 hexp]
    rfl
  rw [isWhole, hfraction, hexponent, Bool.or_eq_true, decide_eq_true_eq]
  exact .inr (by simp)

lemma integer_int (n : Int) : integer (.int n) := isWhole_toString n

lemma ofDigitChars_eq_zero {ds : List Char} (h : ∀ c ∈ ds, c = '0') : Nat.ofDigitChars 10 ds 0 = 0 := by
  induction ds with
  | nil => rfl
  | cons d ds ih =>
    obtain rfl := h d mem_cons_self
    rw [Nat.ofDigitChars_cons]
    exact ih fun c hc => h c (mem_cons_of_mem _ hc)

lemma mantissa_minus {ds : List Char} (h : ∀ c ∈ ds, c.isDigit) : mantissa ('-' :: ds) = ds := by
  have hmarks : ∀ c ∈ '-' :: ds, (c != 'e' && c != 'E') := by
    intro c hc
    rw [Bool.and_eq_true, bne_iff_ne, bne_iff_ne]
    rcases mem_cons.1 hc with rfl | hc
    · decide
    · have hdigit := h c hc
      constructor
      all_goals
        rintro rfl
        revert hdigit
        decide
  rw [mantissa, takeWhile_eq_self_iff.2 hmarks, filter_cons_of_neg (by decide), filter_eq_self.2 h]

lemma isNegative_toString_iff {n : Int} : isNegative (toString n).toList ↔ n < 0 := by
  have hdigits := digits_toDigits n.natAbs
  by_cases hneg : n < 0
  · rw [toList_toString_int, if_pos hneg, singleton_append, isNegative, mantissa_minus hdigits, head?_cons,
      beq_self_eq_true, Bool.true_and]
    refine iff_of_true ?_ hneg
    by_contra hzeros
    -- without another digit than zero the number would be zero
    have hzero : Nat.ofDigitChars 10 (Nat.toDigits 10 n.natAbs) 0 = 0 :=
      ofDigitChars_eq_zero fun c hc => by
        by_contra hc'
        exact hzeros (any_eq_true.2 ⟨c, hc, bne_iff_ne.2 hc'⟩)
    rw [Nat.ofDigitChars_ten_toDigits] at hzero
    omega
  · rw [toList_toString_int, if_neg hneg, nil_append, isNegative, Bool.and_eq_true]
    refine iff_of_false (fun h => ?_) hneg
    exact absurd (hdigits _ (mem_of_mem_head? (eq_of_beq h.1))) (by decide)

lemma natural_int_iff {n : Int} : natural (.int n) ↔ 0 ≤ n := by
  rw [Json.int, natural, isWhole_toString, Bool.true_and, Bool.not_eq_true', ← Bool.not_eq_true,
    isNegative_toString_iff, not_lt]

lemma depth_le_depthOfFields {f : String × Json} {fs : List (String × Json)} (h : f ∈ fs) :
    depth f.2 ≤ depthOfFields fs :=
  (Pack.le_iff_of_max rfl fun _ _ => rfl).1 (Nat.le_refl (depthOfFields fs)) f h

lemma exists_fuel_of_compactFields {fuel : Nat}
    (h : depth (compactFields fs) ≤ fuel) :
    ∃ n, fuel = n + 1 ∧ ∀ f ∈ fs, ∀ v, f.2 = some v → depth v ≤ n := by
  rw [compactFields, depth] at h
  obtain ⟨n, rfl⟩ := Nat.exists_eq_succ_of_ne_zero (show fuel ≠ 0 by omega)
  refine ⟨n, rfl, fun f hf v hv => ?_⟩
  have hmem := (mem_compactFields (f := (f.1, v))).2 (show (f.1, some v) ∈ fs by rwa [← hv])
  exact Nat.le_trans (depth_le_depthOfFields hmem) (Nat.le_of_succ_le_succ h)

end Report.Schema

open Report Report.Schema

namespace Location

variable {l : Location}

/-- Whether a location can be part of a report document. -/
structure IsStorable (l : Location) : Prop where
  path : Text.IsValid l.path
  line_nonneg : 0 ≤ l.line
  line_isLong : Pack.IsLong l.line
  column_nonneg : 0 ≤ l.column
  column_isLong : Pack.IsLong l.column

lemma areJsonNames : AreFieldNames fieldNames := ⟨by decide, by decide⟩

lemma decode_toJson (h : l.IsStorable) : decode none l.toJson = some (some l) := by
  suffices hfields : decodeFields fieldNames setField ⟨"", 0, 0⟩ l.toJson = some l from
    congrArg (Option.map some) hfields
  refine decodeFields_compactFields rfl ?_
  refine (readsAs_text _).put ?_
  refine (readsAs_nonzero? h.line_isLong).put ?_
  refine (readsAs_nonzero? h.column_isLong).put ?_
  rfl

/-- Whether the line and the column of a location are not negative. -/
@[mk_iff]
structure IsNatural (l : Location) : Prop where
  line : 0 ≤ l.line
  column : 0 ≤ l.column

lemma IsStorable.isNatural (h : l.IsStorable) : l.IsNatural := ⟨h.line_nonneg, h.column_nonneg⟩

lemma schema_toJson_iff : Schema.location l.toJson ↔ l.IsNatural := by
  have hnonzero : ∀ n : Int, (n ≠ 0 → 0 ≤ n) ↔ 0 ≤ n := by omega
  refine Iff.trans (record_compactFields_iff areJsonNames rfl) ?_
  simp [natural_int_iff, hnonzero, isNatural_iff]

lemma schema_option_iff {l : Option Location} :
    (∀ v, l.map toJson = some v → Schema.location v) ↔ ∀ x ∈ l.toList, x.IsNatural := by
  cases l <;> simp [schema_toJson_iff]

lemma isPlain_toJson (h : l.IsStorable) : l.toJson.IsPlain := by
  refine isPlain_compactFields areJsonNames rfl ?_
  simp [h.path]

lemma readsAs_option {l : Option Location} (h : ∀ x, l = some x → x.IsStorable) :
    ReadsAs (decode none) none (l.map toJson) l :=
  Json.readsAs_option fun x hx => decode_toJson (h x hx)

end Location

namespace CallNode

mutual

def IsStorable : CallNode → Prop
  | .mk name typeName methodName moduleName location children _ =>
    Text.IsValid name ∧ Text.IsValid typeName ∧ Text.IsValid methodName ∧ Text.IsValid moduleName ∧
      (∀ l, location = some l → l.IsStorable) ∧ AreStorable children
  | .gap => True

def AreStorable : List CallNode → Prop
  | [] => True
  | c :: cs => c.IsStorable ∧ AreStorable cs

end

lemma areJsonNames : AreFieldNames fieldNames := ⟨by decide, by decide⟩

def setField (c : CallNode) (name : String) (v : Json) : Option CallNode :=
  match c, name with
  | .mk n t m o l cs b, "name" => (decodeText n v).map fun n => .mk n t m o l cs b
  | .mk n t m o l cs b, "type" => (decodeText t v).map fun t => .mk n t m o l cs b
  | .mk n t m o l cs b, "method" => (decodeText m v).map fun m => .mk n t m o l cs b
  | .mk n t m o l cs b, "module" => (decodeText o v).map fun o => .mk n t m o l cs b
  | .mk n t m o l cs b, "location" => (Location.decode l v).map fun l => .mk n t m o l cs b
  | .mk n t m o l _ b, "children" => (decodeChildren v).map fun cs => .mk n t m o l cs b
  | .mk n t m o l cs b, "truncated" => (decodeBool b v).map fun b => .mk n t m o l cs b
  | c, _ => some c

lemma decodeFields_cons (cur : CallNode) (k : String) (v : Json) (fs : List (String × Json)) :
    decodeFields cur ((k, v) :: fs) =
      (match resolveName? fieldNames k with
      | some name => setField cur name v
      | none => some cur).bind fun c => decodeFields c fs := by
  rcases hname : resolveName? fieldNames k with _ | name
  · cases cur <;> simp [decodeFields, hname]
  · have hmem := mem_of_resolveName? hname
    simp only [fieldNames, mem_cons, not_mem_nil, or_false] at hmem
    cases cur with
    | gap => simp [decodeFields, setField]
    | mk n t m o l cs b =>
      rcases hmem with rfl | rfl | rfl | rfl | rfl | rfl | rfl <;>
        simp only [decodeFields, hname, setField, Option.bind_map, Function.comp_def]

lemma decodeFields_eq (cur : CallNode) (fs : List (String × Json)) :
    decodeFields cur fs = Json.decodeFields fieldNames setField cur (.object fs) := by
  rw [Json.decodeFields]
  induction fs generalizing cur with
  | nil => rfl
  | cons f fs ih =>
    rw [decodeFields_cons, foldlM_cons]
    exact congrArg (Option.bind _) (funext ih)

lemma decodeOver_eq (cur : CallNode) (j : Json) : decodeOver cur j = Json.decodeFields fieldNames setField cur j := by
  cases j with
  | object fs => exact decodeFields_eq cur fs
  | _ => rfl

lemma isNull_toJson {c : CallNode} (hgap : c.hasGap = false) : c.toJson.isNull = false := by
  cases c with
  | gap => cases hgap
  | mk => rfl

mutual

lemma decodeOver_toJson : ∀ c : CallNode, c.IsStorable → c.hasGap = false → decodeOver (named "") c.toJson = some c
  | .gap, _, hgap => nomatch hgap
  | .mk n t m o l cs b, h, hgap => by
    obtain ⟨-, -, -, -, hlocation, hchildren⟩ := h
    have hlocated := Location.readsAs_option hlocation
    have hcallers : ReadsAs decodeChildren [] (nonempty? (childrenToJson cs)) cs := by
      refine readsAs_ite (decodeItems_childrenToJson cs hchildren hgap) fun hnil => ?_
      cases cs with
      | nil => rfl
      | cons c cs => cases hnil
    rw [decodeOver_eq, toJson]
    refine decodeFields_compactFields rfl ?_
    refine (readsAs_text _).put ?_
    iterate 3 refine ReadsAs.put (readsAs_text? _) ?_
    refine hlocated.put ?_
    refine hcallers.put ?_
    refine (readsAs_true? _).put ?_
    rfl

lemma decodeItems_childrenToJson : ∀ cs : List CallNode, AreStorable cs → anyGap cs = false →
    decodeItems (childrenToJson cs) = some cs
  | [], _, _ => rfl
  | c :: cs, h, hgap => by
    rw [anyGap, Bool.or_eq_false_iff] at hgap
    rw [childrenToJson, decodeItems, isNull_toJson hgap.1, if_neg Bool.false_ne_true, decodeOver_toJson c h.1 hgap.1,
      decodeItems_childrenToJson cs h.2 hgap.2]
    rfl

end

lemma decode_toJson {c : CallNode} (h : c.IsStorable) (hgap : c.hasGap = false) :
    decode none c.toJson = some (some c) := by
  cases c with
  | gap => cases hgap
  | mk => exact congrArg (Option.map some) (decodeOver_toJson _ h hgap)

mutual

def locations : CallNode → List Location
  | .mk _ _ _ _ location children _ => location.toList ++ locationsBelow children
  | .gap => []

def locationsBelow : List CallNode → List Location
  | [] => []
  | c :: cs => c.locations ++ locationsBelow cs

end

mutual

lemma IsStorable.of_mem_locations : ∀ {c : CallNode}, c.IsStorable → ∀ l ∈ c.locations, l.IsStorable
  | .gap, _, l, hl => nomatch hl
  | .mk .., h, l, hl => by
    rcases mem_append.1 hl with hl | hl
    · exact h.2.2.2.2.1 l (Option.mem_toList.1 hl)
    · exact AreStorable.of_mem_locationsBelow h.2.2.2.2.2 l hl

lemma AreStorable.of_mem_locationsBelow : ∀ {cs : List CallNode}, AreStorable cs → ∀ l ∈ locationsBelow cs,
    l.IsStorable
  | [], _, l, hl => nomatch hl
  | _ :: _, h, l, hl => by
    rcases mem_append.1 hl with hl | hl
    · exact IsStorable.of_mem_locations h.1 l hl
    · exact AreStorable.of_mem_locationsBelow h.2 l hl

end

mutual

lemma node_toJson_iff : ∀ (c : CallNode) (fuel : Nat), Schema.depth c.toJson ≤ fuel →
    (node fuel c.toJson ↔ c.hasGap = false ∧ ∀ l ∈ c.locations, l.IsNatural)
  | .gap, 0, _ => by simp [node, hasGap]
  | .gap, _ + 1, _ => by simp [node, toJson, Schema.record, hasGap]
  | .mk n t m o l cs b, fuel, hfuel => by
    rw [toJson] at hfuel ⊢
    obtain ⟨below, rfl, hbelow⟩ := exists_fuel_of_compactFields hfuel
    have hlocated := Location.schema_option_iff (l := l)
    have hcallers : (∀ v, nonempty? (childrenToJson cs) = some v → list (node below) v) ↔
        anyGap cs = false ∧ ∀ l ∈ locationsBelow cs, l.IsNatural := by
      cases cs with
      | nil => simp [childrenToJson, anyGap, locationsBelow]
      | cons c cs =>
        have hdepth := hbelow ("children", nonempty? (childrenToJson (c :: cs))) (by simp) _ rfl
        rw [← all_node_childrenToJson_iff (c :: cs) below (Nat.le_of_succ_le hdepth)]
        simp [childrenToJson]
    rw [node]
    refine Iff.trans (record_compactFields_iff areJsonNames rfl) ?_
    show _ ↔ anyGap cs = false ∧ ∀ x ∈ l.toList ++ locationsBelow cs, x.IsNatural
    rw [forall_mem_append, and_left_comm]
    simp [-Option.map_eq_some_iff, -nonempty?_eq_some_iff, hlocated, hcallers]

lemma all_node_childrenToJson_iff : ∀ (cs : List CallNode) (fuel : Nat), depthOfItems (childrenToJson cs) ≤ fuel →
    ((childrenToJson cs).all (node fuel) ↔ anyGap cs = false ∧ ∀ l ∈ locationsBelow cs, l.IsNatural)
  | [], _, _ => by simp [childrenToJson, anyGap, locationsBelow]
  | c :: cs, fuel, hfuel => by
    rw [childrenToJson, depthOfItems, Nat.max_le] at hfuel
    rw [childrenToJson, all_cons, Bool.and_eq_true, node_toJson_iff c fuel hfuel.1,
      all_node_childrenToJson_iff cs fuel hfuel.2, anyGap, Bool.or_eq_false_iff, locationsBelow,
      forall_mem_append]
    exact and_and_and_comm

end

mutual

lemma isPlain_toJson : ∀ c : CallNode, c.IsStorable → c.toJson.IsPlain
  | .gap, _ => isPlain_null
  | .mk n t m o l cs b, h => by
    obtain ⟨hname, htype, hmethod, hmodule, hlocation, hchildren⟩ := h
    rw [toJson]
    refine isPlain_compactFields areJsonNames rfl ?_
    simpa [hname, htype, hmethod, hmodule] using
      ⟨fun x hx => Location.isPlain_toJson (hlocation x hx), fun _ => isPlain_childrenToJson cs hchildren⟩

lemma isPlain_childrenToJson : ∀ cs : List CallNode, AreStorable cs → ∀ j ∈ childrenToJson cs, j.IsPlain
  | [], _ => forall_mem_nil _
  | c :: cs, h => forall_mem_cons.2 ⟨isPlain_toJson c h.1, isPlain_childrenToJson cs h.2⟩

end

end CallNode

namespace Issue

variable {i : Issue}

structure IsStorable (i : Issue) : Prop where
  category : Text.IsValid i.category.name
  category_ne : i.category.name ≠ ""
  severity : isSeverity i.severity.label = true
  description : Text.IsValid i.description
  descriptorId : Text.IsValid i.descriptorId
  dependencies : ∀ n, i.dependencies = some n → n.IsStorable
  location : ∀ l, i.location = some l → l.IsStorable
  properties : ∀ p ∈ i.properties, Text.IsValid p

lemma areJsonNames : AreFieldNames fieldNames := ⟨by decide, by decide⟩

/-- Whether no caller is missing in the caller tree of an issue. -/
def IsComplete (i : Issue) : Prop := ∀ n, i.dependencies = some n → n.hasGap = false

lemma decode_toJson (h : i.IsStorable) (hgap : i.IsComplete) : decode i.toJson = some i := by
  have hcallers : ReadsAs (CallNode.decode none) none (i.dependencies.map CallNode.toJson) i.dependencies :=
    readsAs_option fun n hn => CallNode.decode_toJson (h.dependencies n hn) (hgap n hn)
  have hlocated := Location.readsAs_option h.location
  refine decodeFields_compactFields rfl ?_
  refine (readsAs_text _).put ?_
  refine (readsAs_text? _).put ?_
  refine (readsAs_text _).put ?_
  refine (readsAs_text? _).put ?_
  refine hcallers.put ?_
  refine hlocated.put ?_
  refine (readsAs_nonempty? (decodeList_strings _)).put ?_
  refine (readsAs_true? _).put ?_
  rfl

def locations (i : Issue) : List Location := i.dependencies.elim [] CallNode.locations ++ i.location.toList

lemma IsStorable.of_mem_locations (h : i.IsStorable) : ∀ l ∈ i.locations, l.IsStorable := by
  intro l hl
  rcases mem_append.1 hl with hl | hl
  · cases hn : i.dependencies with
    | none => simp [hn] at hl
    | some n => exact (h.dependencies n hn).of_mem_locations l (by simpa [hn] using hl)
  · exact h.location l (Option.mem_toList.1 hl)

/-- What the schema asks of an issue. -/
@[mk_iff]
structure IsAdmitted (i : Issue) : Prop where
  category_ne : i.category.name ≠ ""
  severity : isSeverity i.severity.label = true
  complete : i.IsComplete
  locations : ∀ l ∈ i.locations, l.IsNatural

lemma IsStorable.isAdmitted (h : i.IsStorable) (hgap : i.IsComplete) : i.IsAdmitted :=
  ⟨h.category_ne, h.severity, hgap, fun l hl => (h.of_mem_locations l hl).isNatural⟩

lemma schema_toJson_iff : issue i.toJson ↔ i.IsAdmitted := by
  have hcallers : (∀ v, i.dependencies.map CallNode.toJson = some v → node (depth v) v) ↔
      i.IsComplete ∧ ∀ l ∈ i.dependencies.elim [] CallNode.locations, l.IsNatural := by
    rw [IsComplete]
    cases i.dependencies with
    | none => simp
    | some n => simpa using n.node_toJson_iff (depth n.toJson) (Nat.le_refl _)
  -- a severity that is left out is the empty one
  have hseverity : (¬i.severity.label = "" → isSeverity i.severity.label) ↔
      isSeverity i.severity.label = true := by
    by_cases h : i.severity.label = "" <;> simp [h, isSeverity]
  have hlocated := Location.schema_option_iff (l := i.location)
  refine Iff.trans (record_compactFields_iff areJsonNames rfl) ?_
  rw [isAdmitted_iff, locations, forall_mem_append]
  simp [-Option.map_eq_some_iff, hcallers, hlocated, hseverity, and_assoc]

lemma isPlain_toJson (h : i.IsStorable) : i.toJson.IsPlain := by
  refine isPlain_compactFields areJsonNames rfl ?_
  simpa [h.category, isValid_of_isSeverity h.severity, h.description, h.descriptorId] using
    ⟨fun n hn => CallNode.isPlain_toJson n (h.dependencies n hn),
      fun l hl => Location.isPlain_toJson (h.location l hl), fun _ => h.properties⟩

end Issue

/-! ### Sessions and runs -/

lemma Instant.IsStandard.readsAs_toJson {t : Instant} (h : t.IsStandard) (cur : Instant) :
    ReadsAs (Instant.decode cur) cur (some t.toJson) t :=
  readsAs_some h.parse?_text

lemma Instant.isPlain_toJson (t : Instant) : t.toJson.IsPlain := isPlain_string_iff.2 t.isAscii_text.isValid

namespace Session

structure IsStorable (s : Session) : Prop where
  toolVersion : Text.IsValid s.toolVersion
  hostname : Text.IsValid s.hostname
  os : Text.IsValid s.os
  arch : Text.IsValid s.arch
  platform : Text.IsValid s.platform.name
  runtimeVersion : Text.IsValid s.runtimeVersion
  revision : Text.IsValid s.revision

lemma areJsonNames : AreFieldNames fieldNames := ⟨by decide, by decide⟩

lemma decode_toJson {s : Session} (htime : s.timestamp.IsStandard) : decode {} s.toJson = some s := by
  refine decodeFields_compactFields rfl ?_
  refine (readsAs_text _).put ?_
  refine (readsAs_text? _).put ?_
  refine (readsAs_text _).put ?_
  refine (readsAs_text _).put ?_
  iterate 3 refine ReadsAs.put (readsAs_text? _) ?_
  refine (htime.readsAs_toJson _).put ?_
  rfl

lemma schema_toJson (s : Session) : session s.toJson := by
  refine (record_compactFields_iff areJsonNames rfl).2 ⟨by simp, ?_⟩
  simp [Instant.toJson]

lemma isPlain_toJson {s : Session} (h : s.IsStorable) : s.toJson.IsPlain := by
  refine isPlain_compactFields areJsonNames rfl ?_
  simp [h.toolVersion, h.hostname, h.os, h.arch, h.platform, h.runtimeVersion, h.revision, Instant.isPlain_toJson]

end Session

namespace ModuleRun

variable {r : ModuleRun}

structure IsStorable (r : ModuleRun) : Prop where
  name : Text.IsValid r.name
  categories : ∀ c ∈ r.analyzed, Text.IsValid c.name
  outcome : r.outcome ∈ Outcome.known
  error : Text.IsValid r.error

lemma areJsonNames : AreFieldNames fieldNames := ⟨by decide, by decide⟩

lemma decode_toJson (hstart : r.start.IsStandard) (hfinish : r.finish.IsStandard) : decode r.toJson = some r := by
  have hcategories : ReadsAs (fun v => if v.isNull then some none
      else (decodeList (decodeText "") v).map fun xs => some (xs.map Category.mk)) none
      (some r.categoriesJson) r.categories := by
    refine readsAs_some ?_
    rw [categoriesJson]
    cases r.categories with
    | none => rfl
    | some cs =>
      show (decodeList (decodeText "") (.array ((cs.map (·.name)).map .string))).map _ = _
      rw [decodeList_strings, Option.map_some, map_map]
      exact congrArg (fun l => some (some l)) (map_id cs)
  refine decodeFields_compactFields rfl ?_
  refine (readsAs_text _).put ?_
  refine ReadsAs.put (f := fun cs => { name := r.name, categories := cs }) hcategories ?_ fun v => by
    cases v <;> simp [setField, isNull, Function.comp_def]
  refine (hstart.readsAs_toJson _).put ?_
  refine (hfinish.readsAs_toJson _).put ?_
  refine (readsAs_text _).put ?_
  refine (readsAs_text? _).put ?_
  rfl

lemma schema_toJson_iff : run r.toJson ↔ r.outcome ∈ Outcome.known := by
  have hcategories : listOrNull anyText r.categoriesJson := by
    rw [categoriesJson]
    cases r.categories with
    | none => rfl
    | some cs => simp [strings, listOrNull]
  refine Iff.trans (record_compactFields_iff areJsonNames rfl) ?_
  simp [hcategories, Schema.text]

lemma isPlain_toJson (h : r.IsStorable) : r.toJson.IsPlain := by
  have hcategories : r.categoriesJson.IsPlain := by
    have hvalid := h.categories
    rw [analyzed] at hvalid
    rw [categoriesJson]
    cases hc : r.categories with
    | none => exact isPlain_null
    | some cs =>
      rw [hc] at hvalid
      simpa [strings] using hvalid
  have houtcome : Text.IsValid r.outcome.label :=
    ((by decide : ∀ o ∈ Outcome.known, Text.IsAscii o.label) _ h.outcome).isValid
  refine isPlain_compactFields areJsonNames rfl ?_
  simp [h.name, hcategories, Instant.isPlain_toJson, houtcome, h.error]

end ModuleRun

namespace Descriptor

variable {d : Descriptor}

structure IsStorable (d : Descriptor) : Prop where
  title : Text.IsValid d.title
  messageFormat : Text.IsValid d.messageFormat
  defaultSeverity : isSeverity d.defaultSeverity.label = true
  areas : ∀ a ∈ d.areas, Text.IsValid a.name
  platforms : ∀ p ∈ d.platforms, Text.IsValid p.name
  minVersion : Text.IsValid d.minVersion
  maxVersion : Text.IsValid d.maxVersion
  description : Text.IsValid d.description
  recommendation : Text.IsValid d.recommendation
  documentationUrl : Text.IsValid d.documentationUrl
  typeName : Text.IsValid d.typeName
  method : Text.IsValid d.method
  opcode : Text.IsValid d.opcode

lemma areJsonNames : AreFieldNames fieldNames := ⟨by decide, by decide⟩

lemma readsAs_names {β : Type} (name : β → String) (mk : String → β) (h : ∀ x, mk (name x) = x) (xs : List β) :
    ReadsAs (fun v => (decodeList (decodeText "") v).map (·.map mk)) []
      (nonempty? (xs.map fun x => .string (name x))) xs := by
  refine readsAs_nonempty? ?_
  have hstrings : (xs.map fun x => Json.string (name x)) = (xs.map name).map .string := map_map.symm
  rw [hstrings, decodeList_strings, Option.map_some, map_map]
  exact congrArg some ((map_congr_left fun x _ => h x).trans (map_id xs))

lemma decode_toJson (d : Descriptor) : decode d.toJson = some d := by
  refine decodeFields_compactFields rfl ?_
  refine (readsAs_text _).put ?_
  refine (readsAs_text _).put ?_
  refine (readsAs_text? _).put ?_
  refine (readsAs_text _).put ?_
  refine ReadsAs.put (f := fun xs => ⟨d.id, d.title, d.messageFormat, d.defaultSeverity, xs, [], "", "", "", "",
    "", "", "", ""⟩) (readsAs_names Area.name Area.mk (fun _ => rfl) d.areas) ?_ fun _ => by rw [Option.map_map]; rfl
  refine ReadsAs.put (f := fun xs => ⟨d.id, d.title, d.messageFormat, d.defaultSeverity, d.areas, xs, "", "", "", "",
    "", "", "", ""⟩) (readsAs_names Platform.name Platform.mk (fun _ => rfl) d.platforms) ?_ fun _ => by rw [Option.map_map]; rfl
  iterate 8 refine ReadsAs.put (readsAs_text? _) ?_
  rfl

lemma range_of_isValidId {s : String} (h : isValidId s) : ∀ c ∈ s.toList, 0x30 ≤ c.toNat ∧ c.toNat < 0x80 := by
  intro x hx
  rw [isValidId] at h
  split at h
  · next a b c d e f g hs =>
    rw [Bool.and_eq_true, all_eq_true, all_eq_true] at h
    rw [hs, show [a, b, c, d, e, f, g] = [a, b, c] ++ [d, e, f, g] from rfl, mem_append] at hx
    rcases hx with hx | hx
    · have hle := h.1 x hx
      rw [Bool.and_eq_true, decide_eq_true_eq, decide_eq_true_eq] at hle
      exact ⟨Nat.le_trans (by decide) (UInt32.le_iff_toNat_le.1 hle.1),
        Nat.lt_of_le_of_lt (UInt32.le_iff_toNat_le.1 hle.2) (by decide)⟩
    · have hdigit := h.2 x hx
      rw [Char.isDigit, Bool.and_eq_true, decide_eq_true_eq, decide_eq_true_eq] at hdigit
      exact ⟨UInt32.le_iff_toNat_le.1 hdigit.1, Nat.lt_of_le_of_lt (UInt32.le_iff_toNat_le.1 hdigit.2) (by decide)⟩
  · cases h

lemma isAscii_of_isValidId {s : String} (h : isValidId s) : Text.IsAscii s := fun c hc =>
  (range_of_isValidId h c hc).2

lemma validate_eq_ok_iff : d.validate = .ok () ↔
    isValidId d.id = true ∧ d.title ≠ "" ∧ (∃ s, Severity.parse d.defaultSeverity.label = .ok s) ∧
      (d.method = "" → d.typeName = "") := by
  rw [validate]
  by_cases hid : isValidId d.id = true
  swap
  · simp [hid]
  by_cases htitle : d.title = ""
  · simp [hid, htitle]
  rcases hparse : Severity.parse d.defaultSeverity.label with e | s
  · simp [hid, htitle]
  · by_cases hmethod : d.method = "" <;> by_cases htype : d.typeName = "" <;> simp [hid, htitle, hmethod, htype]

lemma isValidId_of_validate (h : d.validate = .ok ()) : isValidId d.id :=
  (validate_eq_ok_iff.1 h).1

lemma schema_toJson_iff :
    Schema.descriptor d.toJson = true ↔ isValidId d.id ∧ isSeverity d.defaultSeverity.label := by
  refine Iff.trans (record_compactFields_iff areJsonNames rfl) ?_
  simp [Schema.text]

lemma isPlain_toJson (h : d.IsStorable) (hvalid : d.validate = .ok ()) : d.toJson.IsPlain := by
  have hid : Text.IsValid d.id := (isAscii_of_isValidId (isValidId_of_validate hvalid)).isValid
  refine isPlain_compactFields areJsonNames rfl ?_
  simpa [hid, h.title, h.messageFormat, isValid_of_isSeverity h.defaultSeverity, h.minVersion, h.maxVersion,
    h.description, h.recommendation, h.documentationUrl, h.typeName, h.method, h.opcode] using
    ⟨fun _ => h.areas, fun _ => h.platforms⟩

end Descriptor

namespace ParamLayer

variable {l : ParamLayer}

structure IsStorable (l : ParamLayer) : Prop where
  platform : Text.IsValid l.platform.name
  names : ∀ v ∈ l.values, Text.IsValid v.1 ∧ v.1 ≠ ""
  values : ∀ v ∈ l.values, Pack.IsLong v.2

lemma areJsonNames : AreFieldNames ["platform", "params"] := ⟨by decide, by decide⟩

lemma areValueNames : AreFieldNames ["name", "value"] := ⟨by decide, by decide⟩

lemma decodeValue_toJson {name : String} {value : Int} (h : Pack.IsLong value) :
    decodeValue (.object [("name", .string name), ("value", .int value)]) = some (name, value) := by
  rw [object_eq_compactFields]
  refine decodeFields_compactFields rfl ?_
  refine (readsAs_text _).put ?_
  refine (readsAs_some (decodeInt_int 0 h)).put ?_
  rfl

lemma decode_toJson (h : ∀ v ∈ l.values, Pack.IsLong v.2) : decode l.toJson = some l := by
  have hvalues : ReadsAs (decodeList decodeValue) [] (some (.array (l.values.map fun v =>
      .object [("name", .string v.1), ("value", .int v.2)]))) l.values :=
    readsAs_some (decodeList_map fun v hv => decodeValue_toJson (h v hv))
  rw [toJson, object_eq_compactFields]
  refine decodeFields_compactFields rfl ?_
  refine (readsAs_text _).put ?_
  refine hvalues.put ?_
  rfl

lemma schema_toJson_iff : Schema.layer l.toJson ↔ ∀ v ∈ l.values, v.1 ≠ "" := by
  have hvalue : ∀ v : String × Int, Schema.record ["name", "value"] [("name", nonemptyText), ("value", integer)]
      (.object [("name", .string v.1), ("value", .int v.2)]) = true ↔ v.1 ≠ "" := fun v => by
    rw [object_eq_compactFields]
    refine Iff.trans (record_compactFields_iff areValueNames rfl) ?_
    simp [integer_int]
  rw [toJson, object_eq_compactFields]
  refine Iff.trans (record_compactFields_iff areJsonNames rfl) ?_
  simp [hvalue]

lemma isPlain_toJson (hplatform : Text.IsValid l.platform.name) (hnames : ∀ v ∈ l.values, Text.IsValid v.1) :
    l.toJson.IsPlain := by
  have hvalue : ∀ v ∈ l.values, IsPlain (.object [("name", .string v.1), ("value", .int v.2)]) := fun v hv => by
    rw [object_eq_compactFields]
    refine isPlain_compactFields areValueNames rfl ?_
    simp [hnames v hv]
  rw [toJson, object_eq_compactFields]
  refine isPlain_compactFields areJsonNames rfl ?_
  simpa [hplatform] using fun _ name value hv hx => hx ▸ hvalue (name, value) hv

end ParamLayer

namespace Rule

structure IsStorable (r : Rule) : Prop where
  id : Text.IsValid r.id
  filter : Text.IsValid r.filter
  severity : isSeverity r.severity.label = true

lemma decode_toJson (r : Rule) : decode r.toJson = some r := by
  refine decodeFields_compactFields rfl ?_
  refine (readsAs_text _).put ?_
  refine (readsAs_text? _).put ?_
  refine (readsAs_text _).put ?_
  rfl

lemma areJsonNames : AreFieldNames ["id", "filter", "severity"] := ⟨by decide, by decide⟩

lemma schema_toJson_iff {r : Rule} : Schema.rule r.toJson ↔ isSeverity r.severity.label := by
  refine Iff.trans (record_compactFields_iff areJsonNames rfl) ?_
  simp

lemma isPlain_toJson {r : Rule} (hid : Text.IsValid r.id) (hfilter : Text.IsValid r.filter)
    (hseverity : Text.IsValid r.severity.label) : r.toJson.IsPlain := by
  refine isPlain_compactFields areJsonNames rfl ?_
  simp [hid, hfilter, hseverity]

end Rule

/-! ### Nesting -/

lemma Location.nesting_toJson_le (l : Location) : l.toJson.nesting ≤ 1 := by
  refine nesting_compactFields_le ?_
  simp [nesting, Json.int]

lemma Issue.nesting_toJson_le {i : Issue} {n : Nat} (h : ∀ c, i.dependencies = some c → c.toJson.nesting ≤ n)
    (hn : 1 ≤ n) : i.toJson.nesting ≤ n + 1 := by
  have hlocation : ∀ l, i.location = some l → l.toJson.nesting ≤ n := fun l _ => l.nesting_toJson_le.trans hn
  have hproperties : (Json.array (i.properties.map .string)).nesting ≤ n :=
    (nesting_array_map_le fun _ _ => Nat.le_refl 0).trans hn
  refine nesting_compactFields_le ?_
  simpa [nesting] using ⟨h, hlocation, fun _ => hproperties⟩

lemma Session.nesting_toJson_le (s : Session) : s.toJson.nesting ≤ 1 := by
  refine nesting_compactFields_le ?_
  simp [nesting, Instant.toJson]

lemma ModuleRun.nesting_toJson_le (r : ModuleRun) : r.toJson.nesting ≤ 2 := by
  have hcategories : r.categoriesJson.nesting ≤ 1 := by
    rw [categoriesJson]
    split
    · exact Nat.zero_le 1
    · exact nesting_array_map_le fun _ _ => Nat.le_refl 0
  refine nesting_compactFields_le ?_
  simpa [nesting, Instant.toJson] using hcategories

lemma Descriptor.nesting_toJson_le (d : Descriptor) : d.toJson.nesting ≤ 2 := by
  have hareas : nestingOfItems (d.areas.map fun a => .string a.name) = 0 :=
    Nat.le_zero.1 (nestingOfItems_le_iff.2 (forall_mem_map.2 fun _ _ => Nat.le_refl 0))
  have hplatforms : nestingOfItems (d.platforms.map fun p => .string p.name) = 0 :=
    Nat.le_zero.1 (nestingOfItems_le_iff.2 (forall_mem_map.2 fun _ _ => Nat.le_refl 0))
  refine nesting_compactFields_le ?_
  simp [nesting, hareas, hplatforms]

lemma ParamLayer.nesting_toJson_le (l : ParamLayer) : l.toJson.nesting ≤ 3 := by
  have hvalues : (Json.array (l.values.map fun x => .object [("name", .string x.1), ("value", .int x.2)])).nesting ≤ 2 :=
    nesting_array_map_le fun _ _ => Nat.le_refl 1
  refine Nat.succ_le_succ (nestingOfFields_le_iff.2 ?_)
  simpa [nesting] using hvalues

lemma Rule.nesting_toJson_le (r : Rule) : r.toJson.nesting ≤ 1 := by
  refine nesting_compactFields_le ?_
  simp [nesting]

end BytecodeAudit
