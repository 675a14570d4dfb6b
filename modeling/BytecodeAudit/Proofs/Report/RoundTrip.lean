import BytecodeAudit.Proofs.Report.Loaded
import BytecodeAudit.Proofs.Report.Fixing

/-!
# Reports are read back

A report whose values are those of the document schema (`IsStorable`) and that can be written
without loss (`IsWritable`) is read back as `reloaded`: fixers are dropped, and open issues come
before fixed ones. `RoundTrips` adds what follows for counts and severities.
-/

namespace BytecodeAudit

open List

open Json Report.Schema

namespace Report

variable {r : Report}

structure IsStorable (r : Report) : Prop where
  session : r.session.IsStorable
  issues : ∀ i ∈ r.issues, i.IsStorable
  runs : ∀ run ∈ r.runs, run.IsStorable
  registered : r.catalog.IsRegistered
  descriptors : ∀ d ∈ r.catalog.list, d.IsStorable
  normal : r.params.IsNormal
  layers : ∀ l ∈ r.params.layers, l.IsStorable
  added : ∃ rs, r.rules = RuleSet.ofList rs
  rules : ∀ x ∈ r.rules.rules, x.IsStorable

/-- Whether the records of a report are those of report documents, however they were put
together. -/
structure HasStorableParts (r : Report) : Prop where
  session : r.session.IsStorable
  issues : ∀ i ∈ r.issues, i.IsStorable
  runs : ∀ run ∈ r.runs, run.IsStorable
  valid : ∀ d ∈ r.catalog.list, d.validate = .ok ()
  descriptors : ∀ d ∈ r.catalog.list, d.IsStorable
  layers : ∀ l ∈ r.params.layers, l.IsStorable
  rules : ∀ x ∈ r.rules.rules, x.IsStorable

lemma IsStorable.hasStorableParts (h : r.IsStorable) : r.HasStorableParts where
  session := h.session
  issues := h.issues
  runs := h.runs
  valid := h.registered.areOrdered.validate_eq
  descriptors := h.descriptors
  layers := h.layers
  rules := h.rules

/-- Whether a report can be written without loss: its times can be written to the nanosecond, no
caller is missing, and the document does not nest deeper than documents are read. -/
structure IsWritable (r : Report) : Prop where
  times : ∀ t ∈ r.times, t.IsStandard
  complete : ∀ i ∈ r.issues, i.IsComplete
  nesting : r.document.nesting ≤ maxDepth

def unfixed (r : Report) : List Issue := r.issues.filter fun i => !i.fixed

def repaired (r : Report) : List Issue := r.issues.filter (·.fixed)

def reloaded (r : Report) : Report where
  session := r.session
  issues := r.unfixed ++ r.repaired
  runs := r.runs
  catalog := ⟨r.catalog.list.map fun d => { descriptor := d }⟩
  params := { r.params with platform := r.session.platform }
  rules := r.rules

def parts (r : Report) : Parts where
  session := r.session
  descriptors := r.catalog.list.map some
  layers := r.params.layers
  rules := r.rules.rules
  runs := r.runs
  unfixed := r.unfixed.map some
  fixed := r.repaired.map some

lemma present_map_some {α : Type} (xs : List α) : Parts.present (xs.map some) = .ok xs := by
  have hmap : (xs.map some).mapM id = some xs := Pack.mapM_eq_some_iff.2 (map_id _)
  rw [Parts.present, hmap]

lemma parts_report_of_areOrdered (h : Catalog.AreOrdered r.catalog.list) : r.parts.report = .ok {
    session := r.session
    issues := r.unfixed ++ r.repaired
    runs := r.runs
    catalog := ⟨r.catalog.list.map fun d => { descriptor := d }⟩
    params := { Params.ofLayers r.params.layers with platform := r.session.platform }
    rules := RuleSet.ofList r.rules.rules } := by
  have hlisted : (r.parts.descriptors.takeWhile Option.isSome).filterMap id = r.catalog.list := by
    have hall : ∀ d ∈ r.catalog.list.map some, d.isSome := forall_mem_map.2 fun _ _ => rfl
    rw [parts, takeWhile_eq_self_iff.2 hall, filterMap_map]
    exact filterMap_some
  have hissues : r.parts.unfixed ++ r.parts.fixed = (r.unfixed ++ r.repaired).map some := map_append.symm
  rw [Parts.report, hlisted, Catalog.registerAll_list h, hissues]
  simp only [parts, present_map_some, bind, Except.bind]

/-! ### The document -/

def settingsJson (r : Report) : Json := compactFields [("params", some r.params.toJson),
  ("rules", some (.array (r.rules.rules.map BytecodeAudit.Rule.toJson)))]

def issuesJson (r : Report) : Json := compactFields [("unfixed", some (.array (r.unfixed.map Issue.toJson))),
  ("fixed", some (.array (r.repaired.map Issue.toJson)))]

lemma document_eq (r : Report) : r.document = compactFields [("format_version", some (.string formatVersion)),
    ("session", some r.session.toJson), ("descriptors", some (.array (r.catalog.list.map Descriptor.toJson))),
    ("settings", some r.settingsJson), ("modules", some (.array (r.runs.map ModuleRun.toJson))),
    ("issues", some r.issuesJson)] := rfl

lemma nesting_document_le {n : Nat} (h : ∀ i ∈ r.issues, i.toJson.nesting ≤ n) (hn : 3 ≤ n) :
    r.document.nesting ≤ n + 3 := by
  have hdescriptors : (Json.array (r.catalog.list.map Descriptor.toJson)).nesting ≤ 3 :=
    nesting_array_map_le fun d _ => d.nesting_toJson_le
  have hlayers : r.params.toJson.nesting ≤ 4 := nesting_array_map_le fun l _ => l.nesting_toJson_le
  have hrules : (Json.array (r.rules.rules.map BytecodeAudit.Rule.toJson)).nesting ≤ 2 :=
    nesting_array_map_le fun x _ => x.nesting_toJson_le
  have hruns : (Json.array (r.runs.map ModuleRun.toJson)).nesting ≤ 3 :=
    nesting_array_map_le fun x _ => x.nesting_toJson_le
  have hissues : ∀ p, (Json.array ((r.issues.filter p).map Issue.toJson)).nesting ≤ n + 1 := fun p =>
    nesting_array_map_le fun i hi => h i (mem_of_mem_filter hi)
  have hsession := r.session.nesting_toJson_le
  refine Nat.succ_le_succ (nestingOfFields_le_iff.2 ?_)
  simp only [forall_mem_cons]
  refine ⟨Nat.zero_le _, by omega, by omega, ?_, by omega, ?_, nofun⟩
  · refine Nat.succ_le_succ (nestingOfFields_le_iff.2 ?_)
    simp only [forall_mem_cons]
    exact ⟨by omega, by omega, nofun⟩
  · refine Nat.succ_le_succ (nestingOfFields_le_iff.2 ?_)
    simp only [forall_mem_cons]
    exact ⟨hissues _, hissues _, nofun⟩

lemma areJsonNames : AreFieldNames Parts.fieldNames := ⟨by decide, by decide⟩

lemma areSettingsNames : AreFieldNames ["params", "rules"] := ⟨by decide, by decide⟩

lemma areIssuesNames : AreFieldNames ["unfixed", "fixed"] := ⟨by decide, by decide⟩

lemma isPlain_document_of_parts (hsession : r.session.toJson.IsPlain)
    (hdescriptors : ∀ d ∈ r.catalog.list, d.toJson.IsPlain) (hlayers : ∀ l ∈ r.params.layers, l.toJson.IsPlain)
    (hrules : ∀ x ∈ r.rules.rules, x.toJson.IsPlain) (hruns : ∀ x ∈ r.runs, x.toJson.IsPlain)
    (hissues : ∀ i ∈ r.issues, i.toJson.IsPlain) : r.document.IsPlain := by
  have hsettings : r.settingsJson.IsPlain := by
    refine isPlain_compactFields areSettingsNames rfl ?_
    simpa [Params.toJson] using ⟨hlayers, hrules⟩
  have hlists : r.issuesJson.IsPlain := by
    refine isPlain_compactFields areIssuesNames rfl ?_
    simpa [unfixed, Report.repaired] using ⟨fun _ i hi _ hj => hj ▸ hissues i hi, fun _ i hi _ hj => hj ▸ hissues i hi⟩
  rw [document_eq]
  refine isPlain_compactFields areJsonNames rfl ?_
  have hversion : Text.IsValid formatVersion := by decide
  simpa [hversion, hsession, hsettings, hlists] using ⟨hdescriptors, hruns⟩

/-- What the schema asks of a report. -/
@[mk_iff]
structure IsAdmitted (r : Report) : Prop where
  descriptors : ∀ d ∈ r.catalog.list,
    Descriptor.isValidId d.id = true ∧ isSeverity d.defaultSeverity.label = true
  layers : ∀ l ∈ r.params.layers, ∀ v ∈ l.values, v.1 ≠ ""
  rules : ∀ x ∈ r.rules.rules, isSeverity x.severity.label = true
  runs : ∀ x ∈ r.runs, x.outcome ∈ Outcome.known
  issues : ∀ i ∈ r.issues, i.IsAdmitted

lemma schema_document_iff : Schema.document r.document ↔ r.IsAdmitted := by
  have hsettings : Schema.record ["params", "rules"] [("params", list layer), ("rules", list rule)]
      r.settingsJson = true ↔
      (∀ l ∈ r.params.layers, ∀ v ∈ l.values, v.1 ≠ "") ∧ ∀ x ∈ r.rules.rules, isSeverity x.severity.label = true := by
    refine Iff.trans (record_compactFields_iff areSettingsNames rfl) ?_
    simp [-list_array, Params.toJson, list_array_map_iff, ParamLayer.schema_toJson_iff, Rule.schema_toJson_iff]
  have hissues : Schema.record ["unfixed", "fixed"] [("unfixed", list issue), ("fixed", list issue)]
      r.issuesJson = true ↔ ∀ i ∈ r.issues, i.IsAdmitted := by
    have hsplit : (∀ i ∈ r.issues, i.IsAdmitted) ↔ (∀ i ∈ r.unfixed, i.IsAdmitted) ∧ ∀ i ∈ r.repaired, i.IsAdmitted := by
      rw [← forall_mem_append]
      exact forall_congr' fun i => imp_congr_left
        (perm_append_comm.trans (filter_append_perm Issue.fixed r.issues)).mem_iff.symm
    rw [hsplit]
    refine Iff.trans (record_compactFields_iff areIssuesNames rfl) ?_
    simp [-list_array, -mem_filter, list_array_map_iff, Issue.schema_toJson_iff]
  have hdescriptors : listOrNull descriptor (.array (r.catalog.list.map Descriptor.toJson)) ↔
      ∀ d ∈ r.catalog.list, Descriptor.isValidId d.id = true ∧ isSeverity d.defaultSeverity.label = true := by
    refine Iff.trans list_array_map_iff ?_
    simp only [Descriptor.schema_toJson_iff]
  have hruns : list run (.array (r.runs.map ModuleRun.toJson)) ↔ ∀ x ∈ r.runs, x.outcome ∈ Outcome.known := by
    simp only [list_array_map_iff, ModuleRun.schema_toJson_iff]
  have hversion : text isFormatVersion (.string formatVersion) := by decide
  have hsession := r.session.schema_toJson
  rw [document_eq]
  refine Iff.trans (record_compactFields_iff areJsonNames rfl) ?_
  simp [-list_array, hversion, hsession, hdescriptors, hsettings, hruns, hissues, isAdmitted_iff, and_assoc]

section

variable {r : Report} (hw : r.IsWritable)
include hw

lemma IsWritable.of_unfixed : ∀ i ∈ r.unfixed, i.IsComplete := fun i hi => hw.complete i (mem_of_mem_filter hi)

lemma IsWritable.of_repaired : ∀ i ∈ r.repaired, i.IsComplete := fun i hi => hw.complete i (mem_of_mem_filter hi)

lemma IsWritable.timestamp : r.session.timestamp.IsStandard := hw.times _ mem_cons_self

lemma IsWritable.start : ∀ x ∈ r.runs, x.start.IsStandard := fun x hx =>
  hw.times _ (mem_cons_of_mem _ (mem_flatMap.2 ⟨x, hx, by simp⟩))

lemma IsWritable.finish : ∀ x ∈ r.runs, x.finish.IsStandard := fun x hx =>
  hw.times _ (mem_cons_of_mem _ (mem_flatMap.2 ⟨x, hx, by simp⟩))

lemma write_eq : r.write = .ok (r.document.pretty 0 ++ "\n") := by
  have hfault : r.times.findSome? Instant.fault? = none := findSome?_eq_none_iff.2 fun t ht => (hw.times t ht).fault?_eq
  rw [write, hfault]
  exact if_neg (Nat.not_lt.2 hw.nesting)

end

section

variable {r : Report} (h : r.HasStorableParts)
include h

lemma HasStorableParts.of_unfixed : ∀ i ∈ r.unfixed, i.IsStorable := fun i hi =>
  h.issues i (mem_of_mem_filter hi)

lemma HasStorableParts.of_repaired : ∀ i ∈ r.repaired, i.IsStorable := fun i hi =>
  h.issues i (mem_of_mem_filter hi)

lemma isPlain_document : r.document.IsPlain :=
  isPlain_document_of_parts (Session.isPlain_toJson h.session)
    (fun d hd => Descriptor.isPlain_toJson (h.descriptors d hd) (h.valid d hd))
    (fun l hl => ParamLayer.isPlain_toJson (h.layers l hl).platform fun v hv => ((h.layers l hl).names v hv).1)
    (fun x hx => Rule.isPlain_toJson (h.rules x hx).id (h.rules x hx).filter
      (isValid_of_isSeverity (h.rules x hx).severity))
    (fun x hx => ModuleRun.isPlain_toJson (h.runs x hx)) fun i hi => Issue.isPlain_toJson (h.issues i hi)

lemma setField_settings (p : Parts) : p.setField "settings" r.settingsJson =
    some { p with layers := r.params.layers, rules := r.rules.rules } := by
  have hlayers := decodeList_map fun l hl => ParamLayer.decode_toJson (h.layers l hl).values
  have hrules := decodeList_map fun x (_ : x ∈ r.rules.rules) => BytecodeAudit.Rule.decode_toJson x
  refine decodeFields_compactFields rfl ?_
  refine ReadsAs.put (readsAs_some hlayers) ?_ (fun _ => rfl) (rfl : { p with layers := p.layers } = p)
  refine (readsAs_some hrules).put ?_
  rfl

variable (hw : r.IsWritable)
include hw

lemma isAdmitted_of_isWritable : r.IsAdmitted where
  descriptors d hd := ⟨Descriptor.isValidId_of_validate (h.valid d hd), (h.descriptors d hd).defaultSeverity⟩
  layers l hl v hv := ((h.layers l hl).names v hv).2
  rules x hx := (h.rules x hx).severity
  runs x hx := (h.runs x hx).outcome
  issues i hi := (h.issues i hi).isAdmitted (hw.complete i hi)

lemma setField_issues (p : Parts) : p.setField "issues" r.issuesJson =
    some { p with unfixed := r.unfixed.map some, fixed := r.repaired.map some } := by
  have hissue : ∀ i : Issue, i.IsStorable → i.IsComplete → decodeOptional Issue.decode i.toJson = some (some i) :=
    fun _ hi hgap => decodeOptional_compactFields (Issue.decode_toJson hi hgap)
  have hunfixed := decodeList_array_map fun i hi => hissue i (h.of_unfixed i hi) (hw.of_unfixed i hi)
  have hfixed := decodeList_array_map fun i hi => hissue i (h.of_repaired i hi) (hw.of_repaired i hi)
  refine decodeFields_compactFields rfl ?_
  refine (readsAs_some hunfixed).put ?_
  refine (readsAs_some hfixed).put ?_
  rfl

lemma decodePlain_document : Parts.decodePlain r.document = some r.parts := by
  have hdescriptors : decodeList (decodeOptional Descriptor.decode) (.array (r.catalog.list.map Descriptor.toJson)) =
      some (r.catalog.list.map some) :=
    decodeList_array_map fun d _ => decodeOptional_compactFields (Descriptor.decode_toJson d)
  have hruns := decodeList_map fun x hx => ModuleRun.decode_toJson (hw.start x hx) (hw.finish x hx)
  rw [document_eq]
  refine decodeFields_compactFields rfl ?_
  refine (readsAs_text _).put ?_
  refine (readsAs_some (Session.decode_toJson hw.timestamp)).put ?_
  refine (readsAs_some hdescriptors).put ?_
  refine ReadsAs.put (readsAs_some (setField_settings h _)) ?_ fun _ => (Option.map_id_apply ..).symm
  refine (readsAs_some hruns).put ?_
  refine ReadsAs.put (readsAs_some (setField_issues h hw _)) ?_ fun _ => (Option.map_id_apply ..).symm
  rfl

lemma decode_document : Parts.decode r.document = some r.parts :=
  (Parts.decode_eq_decodePlain (isPlain_document h).unrepeated).trans (decodePlain_document h hw)

lemma wellFormed?_pretty_document : wellFormed? (r.document.pretty 0 ++ "\n") = some r.document := by
  rw [wellFormed?, parse?_pretty (isPlain_document h).clean hw.nesting, Option.filter_some,
    if_pos (schema_document_iff.2 (isAdmitted_of_isWritable h hw))]

end

section

variable {r : Report} (h : r.IsStorable)
include h

lemma parts_report : r.parts.report = .ok r.reloaded := by
  obtain ⟨rs, hrs⟩ := h.added
  have hrules : RuleSet.ofList r.rules.rules = r.rules := by rw [hrs, RuleSet.ofList_rules]
  rw [parts_report_of_areOrdered h.registered.areOrdered, Params.ofLayers_layers h.normal, hrules]
  rfl

lemma read_pretty_document (hw : r.IsWritable) : read (r.document.pretty 0 ++ "\n") = .ok r.reloaded :=
  (read_eq (wellFormed?_pretty_document h.hasStorableParts hw) (decode_document h.hasStorableParts hw)).trans
    (parts_report h)

end

/-! ### What is kept -/

/-- What is kept of a report when it is written and read. -/
structure IsReloadOf (r' r : Report) : Prop where
  session : r'.session = r.session
  layers : r'.params.layers = r.params.layers
  rules : r'.rules.rules = r.rules.rules
  descriptors : r'.catalog.list = r.catalog.list
  /-- Fixers are not part of a document. -/
  canFix : ∀ id, r'.catalog.canFix id = false
  runs : r'.runs = r.runs
  /-- The issues that are not fixed come first; each keeps all its fields. -/
  issues : r'.issues = r.unfixed ++ r.repaired
  inCategory : ∀ c, (r'.inCategory c).Perm (r.inCategory c)
  length_inCategory : ∀ c, (r'.inCategory c).length = (r.inCategory c).length
  summary : r'.summary = r.summary
  effectiveSeverity : ∀ i, r'.effectiveSeverity i = r.effectiveSeverity i

/-- Whether a report can be written and read, and what is read is the report and stays it. -/
def RoundTrips (r : Report) : Prop :=
  ∃ text r', r.write = .ok text ∧ read text = .ok r' ∧ r'.IsReloadOf r ∧ r'.write = .ok text

lemma list_reloaded (r : Report) : r.reloaded.catalog.list = r.catalog.list := by
  rw [reloaded, Catalog.list, map_map]
  exact map_id _

lemma perm_reloaded (r : Report) : r.reloaded.issues.Perm r.issues :=
  perm_append_comm.trans (filter_append_perm Issue.fixed r.issues)

lemma effectiveSeverity_reloaded (r : Report) (i : Issue) :
    r.reloaded.effectiveSeverity i = r.effectiveSeverity i := by
  have hget : ∀ id, r.reloaded.catalog.get? id = r.catalog.get? id := fun id => by
    rw [Catalog.get?_eq_find?, Catalog.get?_eq_find?, list_reloaded]
  simp only [effectiveSeverity, policy, SeverityPolicy.effective, SeverityPolicy.ruled?, SeverityPolicy.severity,
    SeverityPolicy.declared, Option.bind_some, hget]
  rfl

lemma isReloadOf_reloaded (r : Report) : r.reloaded.IsReloadOf r where
  session := rfl
  layers := rfl
  rules := rfl
  descriptors := list_reloaded r
  canFix id := by
    rw [Catalog.canFix]
    split
    · next e he =>
      obtain ⟨d, -, rfl⟩ := mem_map.1 (mem_of_find?_eq_some he)
      rfl
    · rfl
  runs := rfl
  issues := rfl
  inCategory c := (perm_reloaded r).filter _
  length_inCategory c := ((perm_reloaded r).filter _).length_eq
  summary := summary_eq_of_perm (perm_reloaded r) (List.Perm.refl _) (effectiveSeverity_reloaded r)
  effectiveSeverity := effectiveSeverity_reloaded r

lemma document_reloaded (r : Report) : r.reloaded.document = r.document := by
  have hunfixed : r.reloaded.issues.filter (fun i => !i.fixed) = r.unfixed := by
    simp [reloaded, unfixed, repaired, filter_filter]
  have hfixed : r.reloaded.issues.filter (·.fixed) = r.repaired := by
    simp [reloaded, unfixed, repaired, filter_filter]
  rw [document, hunfixed, hfixed, list_reloaded]
  rfl

lemma roundTrips_of_isWritable (h : r.IsStorable) (hw : r.IsWritable) : r.RoundTrips := by
  have hwrite : r.reloaded.write = r.write := by
    rw [write, write, document_reloaded]
    rfl
  exact ⟨_, r.reloaded, write_eq hw, read_pretty_document h hw, isReloadOf_reloaded r, hwrite.trans (write_eq hw)⟩

/-! ### What cannot be kept -/

lemma exists_of_write {text : String} (h : r.write = .ok text) :
    (∀ t ∈ r.times, t.fault? = none) ∧ r.document.nesting ≤ maxDepth ∧ text = r.document.pretty 0 ++ "\n" := by
  rw [write] at h
  split at h
  · cases h
  · next hfault =>
    split at h
    · cases h
    · next hnesting => exact ⟨findSome?_eq_none_iff.1 hfault, Nat.not_lt.1 hnesting, (Except.ok.inj h).symm⟩

lemma isWritable_of_roundTrips (h : r.IsStorable) (hr : r.RoundTrips) : r.IsWritable := by
  obtain ⟨text, r', hwrite, hread, hreload, -⟩ := hr
  obtain ⟨hfault, hnesting, rfl⟩ := exists_of_write hwrite
  have htimes : r'.times = r.times := by rw [times, times, hreload.session, hreload.runs]
  have hstandard : ∀ t ∈ r.times, t.IsStandard := fun t ht =>
    isLoaded_of_read hread t (htimes ▸ ht) (Instant.fault?_eq_none_iff.1 (hfault t ht)).2.2
  obtain ⟨j, p, hj, -⟩ := exists_of_read hread
  obtain ⟨hparse, hschema⟩ := Option.filter_eq_some_iff.1 hj
  rw [parse?_pretty (isPlain_document h.hasStorableParts).clean hnesting] at hparse
  cases hparse
  exact ⟨hstandard, fun i hi => ((schema_document_iff.1 hschema).issues i hi).complete, hnesting⟩

theorem roundTrips_iff_isWritable {r : Report} (h : r.IsStorable) : r.RoundTrips ↔ r.IsWritable :=
  ⟨isWritable_of_roundTrips h, roundTrips_of_isWritable h⟩

/-! ### A report of every kind of part -/

def wildcard : Descriptor :=
  { id := "PAC0001", title := "Title", defaultSeverity := .major, areas := [⟨"cpu"⟩], method := "*" }

def mixed : Report where
  session := { toolVersion := "1.2", os := "linux", arch := "amd64", timestamp := ⟨1700000000123000000, -12600⟩ }
  issues := [
    { category := .code, description := "first", descriptorId := "PAC0001", location := some ⟨"a.cs", 7, 0⟩,
      fixed := true },
    { category := .code, severity := .minor, description := "second", descriptorId := "PAC0001",
      dependencies := some (.mk "A.f()" "A" "f" "m" none [.mk "B.g()" "" "" "" (some ⟨"b.cs", 3, 1⟩) [] true] false),
      properties := ["p"] }]
  runs := [{ name := "code", categories := some [.code], outcome := .success },
    { name := "other", outcome := .failure, error := "no modules" }]
  catalog := ⟨[{ descriptor := wildcard, fixer := some fun _ d => .ok d }]⟩
  params := { defaults := [("depth", 5), ("limit", -1)], overrides := [⟨.ios, [("depth", 3)]⟩], platform := .ios }
  rules := .ofList [⟨"PAC0001", "", .info⟩, ⟨"PAC0001", "A.f()", .hidden⟩]

lemma isRegistered_mixed : mixed.catalog.IsRegistered := by
  have hseverity : Severity.parse "major" = .ok .major := by
    rw [Severity.parse, Text.lower_trim_eq_self (by decide) (by decide)]
    decide
  have hvalid : wildcard.validate = .ok () := by
    rw [Descriptor.validate, show wildcard.defaultSeverity.label = "major" from rfl, hseverity]
    rfl
  have hregister : Catalog.empty.register wildcard = .ok ⟨[{ descriptor := wildcard }]⟩ :=
    Catalog.register_eq_ok_iff.2 ⟨hvalid, forall_mem_nil _, rfl⟩
  have hattach : Catalog.attachFixer ⟨[{ descriptor := wildcard }]⟩ "PAC0001" (some fun _ d => .ok d) =
      .ok mixed.catalog := rfl
  exact .attachFixer (.register .empty hregister) hattach

lemma isStorable_mixed : mixed.IsStorable where
  session := by constructor <;> decide
  issues := by
    simp only [mixed, forall_mem_cons]
    refine ⟨?_, ?_, forall_mem_nil _⟩
    · constructor
      case dependencies => rintro n ⟨⟩
      case location =>
        rintro l ⟨⟩
        constructor <;> decide
      all_goals decide
    · constructor
      case dependencies =>
        rintro n ⟨⟩
        refine ⟨by decide, by decide, by decide, by decide, by rintro l ⟨⟩,
          ⟨by decide, by decide, by decide, by decide, ?_, trivial⟩, trivial⟩
        rintro l ⟨⟩
        constructor <;> decide
      case location => rintro l ⟨⟩
      all_goals decide
  runs := by
    simp only [mixed, forall_mem_cons]
    refine ⟨?_, ?_, forall_mem_nil _⟩ <;> constructor <;> decide
  registered := isRegistered_mixed
  descriptors := by
    simp only [mixed, Catalog.list, map_cons, forall_mem_cons]
    refine ⟨?_, forall_mem_nil _⟩
    constructor <;> decide
  normal := by
    have hios : Platform.parse Platform.ios.name = Platform.ios :=
      Platform.parse_eq_self (by decide) (by decide) (by decide)
    have hdefaults : ParamValues.IsAscending [("depth", 5), ("limit", -1)] :=
      pairwise_pair.2 (by decide +kernel)
    exact ⟨hdefaults, by simp [mixed, ParamValues.IsAscending], by simp [mixed],
      by simp [mixed, Platform.ios, Platform.default], forall_mem_singleton.2 hios⟩
  layers := by
    simp only [mixed, Params.layers, forall_mem_cons]
    refine ⟨?_, ?_, forall_mem_nil _⟩ <;> constructor <;> decide
  added := ⟨_, rfl⟩
  rules := by
    have hrules : mixed.rules.rules = [⟨"PAC0001", "", .info⟩, ⟨"PAC0001", "A.f()", .hidden⟩] := by decide
    rw [hrules]
    simp only [forall_mem_cons]
    refine ⟨?_, ?_, forall_mem_nil _⟩ <;> constructor <;> decide

lemma isWritable_mixed : mixed.IsWritable where
  times := by
    have hsession : Instant.IsStandard ⟨1700000000123000000, -12600⟩ := ⟨by decide, by decide⟩
    have hunset : Instant.IsStandard .unset := ⟨by decide, by decide⟩
    simp only [mixed, Report.times, flatMap_cons, flatMap_nil, cons_append, nil_append, forall_mem_cons]
    exact ⟨hsession, hunset, hunset, hunset, hunset, nofun⟩
  complete := by
    simp only [mixed, forall_mem_cons]
    refine ⟨by rintro n ⟨⟩, ?_, nofun⟩
    rintro n ⟨⟩
    rfl
  nesting := by decide

theorem roundTrips_mixed : mixed.RoundTrips := (roundTrips_iff_isWritable isStorable_mixed).2 isWritable_mixed

/-! ### Reports that are lost -/

def bare (t : Instant) (is : List Issue) : Report := { session := { timestamp := t }, issues := is }

def called (c : CallNode) : Issue := { category := .code, description := "d", dependencies := some c }

def chain : Nat → CallNode
  | 0 => .named "a"
  | n + 1 => .mk "a" "" "" "" none [chain n] false

lemma isStorable_bare (t : Instant) {is : List Issue} (h : ∀ i ∈ is, i.IsStorable) : (bare t is).IsStorable where
  session := by
    have hempty : Text.IsValid "" := by decide
    exact ⟨hempty, hempty, hempty, hempty, (by decide : Text.IsValid Platform.default.name), hempty, hempty⟩
  issues := h
  runs := nofun
  registered := .empty
  descriptors := nofun
  normal := Params.isNormal_empty
  layers := forall_mem_singleton.2 ⟨(by decide : Text.IsValid Platform.default.name), nofun, nofun⟩
  added := ⟨[], rfl⟩
  rules := nofun

lemma isStorable_called {c : CallNode} (h : c.IsStorable) : (called c).IsStorable := by
  have hcategory : Text.IsValid Category.code.name ∧ Category.code.name ≠ "" := by decide
  have hseverity : isSeverity Severity.default.label := by decide
  refine ⟨hcategory.1, hcategory.2, hseverity, (by decide : Text.IsValid "d"), (by decide : Text.IsValid ""), ?_,
    nofun, nofun⟩
  rintro n ⟨⟩
  exact h

lemma isStorable_chain (n : Nat) : (chain n).IsStorable := by
  have htext : Text.IsValid "a" := by decide
  have hempty : Text.IsValid "" := by decide
  induction n with
  | zero => exact ⟨htext, hempty, hempty, hempty, nofun, trivial⟩
  | succ n ih => exact ⟨htext, hempty, hempty, hempty, nofun, ih, trivial⟩

lemma le_nesting_chain (n : Nat) : 2 * n + 1 ≤ (chain n).toJson.nesting := by
  induction n with
  | zero => decide
  | succ n ih =>
    have hlist : (chain n).toJson.nesting + 1 ≤ (Json.array [(chain n).toJson]).nesting :=
      Nat.succ_le_succ (nesting_le_nestingOfItems mem_cons_self)
    have hmem : ("children", .array [(chain n).toJson]) ∈ [("name", Json.string "a"),
        ("children", .array [(chain n).toJson])] := by simp
    have hfield : (Json.array [(chain n).toJson]).nesting + 1 ≤ (chain (n + 1)).toJson.nesting :=
      Nat.succ_le_succ (nesting_le_nestingOfFields (f := ("children", .array [(chain n).toJson])) hmem)
    omega

lemma nesting_le_document_called (t : Instant) (c : CallNode) :
    c.toJson.nesting ≤ (bare t [called c]).document.nesting := by
  have hissue : c.toJson.nesting ≤ (called c).toJson.nesting :=
    Nat.le_succ_of_le (nesting_le_nestingOfFields (f := ("dependencies", c.toJson))
      (mem_compactFields.2 (by simp [called])))
  have hlist : nestingOfItems (((bare t [called c]).issues.filter fun i => !i.fixed).map Issue.toJson) =
      max (called c).toJson.nesting 0 := rfl
  simp only [document, nesting, nestingOfFields]
  omega

/-- Whether a report holds the values of report documents, and is lost all the same when it is
written and read. -/
def IsLost (r : Report) : Prop := r.IsStorable ∧ ¬ r.RoundTrips

theorem isLost_unwritable : IsLost (bare ⟨0, 86400⟩ []) ∧ IsLost (bare ⟨253402300800000000000, 0⟩ []) ∧
    IsLost (bare ⟨0, 30⟩ []) ∧ IsLost (bare ⟨0, 0⟩ [called (.mk "a" "" "" "" none [.gap] false)]) ∧
    IsLost (bare ⟨0, 0⟩ [called (chain 5000)]) := by
  have hgap : CallNode.IsStorable (.mk "a" "" "" "" none [.gap] false) :=
    ⟨by decide, by decide, by decide, by decide, nofun, trivial, trivial⟩
  have hempty := fun t => isStorable_bare t (List.forall_mem_nil _)
  have hcalled := fun c hc => isStorable_bare ⟨0, 0⟩ (List.forall_mem_singleton.2 (isStorable_called (c := c) hc))
  refine ⟨⟨hempty _, ?_⟩, ⟨hempty _, ?_⟩, ⟨hempty _, ?_⟩, ⟨hcalled _ hgap, ?_⟩, ⟨hcalled _ (isStorable_chain 5000), ?_⟩⟩
  · intro h
    have hfault := ((isWritable_of_roundTrips (hempty _) h).times _ List.mem_cons_self).fault?_eq
    exact absurd hfault (by decide)
  · intro h
    have hfault := ((isWritable_of_roundTrips (hempty _) h).times _ List.mem_cons_self).fault?_eq
    exact absurd hfault (by decide)
  · intro h
    have hminutes := ((isWritable_of_roundTrips (hempty _) h).times _ List.mem_cons_self).minutes
    exact absurd hminutes (by decide)
  · intro h
    have hcomplete := (isWritable_of_roundTrips (hcalled _ hgap) h).complete _ List.mem_cons_self _ rfl
    exact absurd hcomplete (by decide)
  · intro h
    have hnesting := (isWritable_of_roundTrips (hcalled _ (isStorable_chain 5000)) h).nesting
    have hchain := (le_nesting_chain 5000).trans (nesting_le_document_called ⟨0, 0⟩ _)
    rw [maxDepth] at hnesting
    omega

end Report

end BytecodeAudit
