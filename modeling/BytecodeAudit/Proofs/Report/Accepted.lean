import BytecodeAudit.Proofs.Report.RoundTrip
import BytecodeAudit.Proofs.Rules.Reload

/-!
# Reports that are accepted

A report is written with the replacement character in place of each stray byte. So what its document
is read as is the document of another report, `asWritten`, whose texts are repaired
(`document_asWritten`).

Whether the document passes the schema and can be read is another matter. `IsAdmissible` puts both
together, and a report that is `IsRegular`, as analyzers make them, is accepted exactly if it is
admissible (`isAccepted_iff_isAdmissible`).
-/

namespace BytecodeAudit

open List Option

open Json

namespace Location

def repaired (l : Location) : Location := { l with path := Text.repaired l.path }

variable (l : Location)

lemma line_repaired : l.repaired.line = l.line := rfl

lemma column_repaired : l.repaired.column = l.column := rfl

lemma repaired_toJson : l.toJson.repaired = l.repaired.toJson := by
  rw [toJson, repaired_compactFields areJsonNames rfl, toJson]
  simp [repaired, repaired_string]

lemma isClean_toJson : l.toJson.repaired.IsClean := by
  refine isClean_repaired_compactFields ?_
  simp

lemma map_repaired_toJson (l : Option Location) : (l.map toJson).map Json.repaired = (l.map repaired).map toJson := by
  cases l <;> simp [repaired_toJson]

end Location

namespace CallNode

mutual

def repaired : CallNode → CallNode
  | .mk n t m o l cs b =>
    .mk (Text.repaired n) (Text.repaired t) (Text.repaired m) (Text.repaired o) (l.map Location.repaired)
      (repairedList cs) b
  | .gap => .gap

def repairedList : List CallNode → List CallNode
  | [] => []
  | c :: cs => c.repaired :: repairedList cs

end

mutual

lemma repaired_toJson : ∀ c : CallNode, c.toJson.repaired = c.repaired.toJson
  | .gap => rfl
  | .mk n t m o l cs b => by
    rw [toJson, repaired_compactFields areJsonNames rfl, repaired, toJson]
    simp only [map_cons, map_nil, map_some, repaired_string, repaired_text?, Location.map_repaired_toJson,
      repaired_nonempty?, repaired_childrenToJson cs, repaired_true?]

lemma repaired_childrenToJson : ∀ cs : List CallNode,
    (childrenToJson cs).map Json.repaired = childrenToJson (repairedList cs)
  | [] => rfl
  | c :: cs => by
    rw [childrenToJson, map_cons, repaired_toJson c, repaired_childrenToJson cs, repairedList, childrenToJson]

end

mutual

lemma isClean_toJson : ∀ c : CallNode, c.toJson.repaired.IsClean
  | .gap => trivial
  | .mk n t m o l cs b => by
    have hchildren := isClean_childrenToJson cs
    rw [toJson]
    refine isClean_repaired_compactFields ?_
    simpa [Location.isClean_toJson, isClean_repaired_array] using fun _ => hchildren

lemma isClean_childrenToJson : ∀ cs : List CallNode, ∀ j ∈ childrenToJson cs, j.repaired.IsClean
  | [] => forall_mem_nil _
  | c :: cs => forall_mem_cons.2 ⟨isClean_toJson c, isClean_childrenToJson cs⟩

end

mutual

lemma hasGap_repaired : ∀ c : CallNode, c.repaired.hasGap = c.hasGap
  | .gap => rfl
  | .mk _ _ _ _ _ cs _ => anyGap_repairedList cs

lemma anyGap_repairedList : ∀ cs : List CallNode, anyGap (repairedList cs) = anyGap cs
  | [] => rfl
  | c :: cs => by rw [repairedList, anyGap, hasGap_repaired c, anyGap_repairedList cs, anyGap]

end

mutual

lemma locations_repaired : ∀ c : CallNode, c.repaired.locations = c.locations.map Location.repaired
  | .gap => rfl
  | .mk _ _ _ _ l cs _ => by
    have hlocation : (l.map Location.repaired).toList = l.toList.map Location.repaired := by cases l <;> rfl
    rw [repaired, locations, hlocation, locationsBelow_repairedList cs, locations, map_append]

lemma locationsBelow_repairedList : ∀ cs : List CallNode,
    locationsBelow (repairedList cs) = (locationsBelow cs).map Location.repaired
  | [] => rfl
  | c :: cs => by
    rw [repairedList, locationsBelow, locations_repaired c, locationsBelow_repairedList cs, locationsBelow,
      List.map_append]

end

end CallNode

namespace Issue

def repaired (i : Issue) : Issue where
  category := ⟨Text.repaired i.category.name⟩
  severity := ⟨Text.repaired i.severity.label⟩
  description := Text.repaired i.description
  descriptorId := Text.repaired i.descriptorId
  dependencies := i.dependencies.map CallNode.repaired
  location := i.location.map Location.repaired
  properties := i.properties.map Text.repaired
  fixed := i.fixed

lemma repaired_toJson (i : Issue) : i.toJson.repaired = i.repaired.toJson := by
  have hcallers : (i.dependencies.map CallNode.toJson).map Json.repaired =
      (i.dependencies.map CallNode.repaired).map CallNode.toJson := by
    cases i.dependencies <;> simp [CallNode.repaired_toJson]
  have hproperties : (i.properties.map Json.string).map Json.repaired = (i.properties.map Text.repaired).map .string := by
    simp [repaired_string]
  rw [toJson, repaired_compactFields areJsonNames rfl, toJson]
  simp only [map_cons, map_nil, map_some, repaired_string, repaired_text?, hcallers,
    Location.map_repaired_toJson, repaired_nonempty?, hproperties, repaired_true?]
  rfl

lemma isClean_toJson (i : Issue) : i.toJson.repaired.IsClean := by
  refine isClean_repaired_compactFields ?_
  simp [Location.isClean_toJson, CallNode.isClean_toJson]

lemma locations_repaired (i : Issue) : i.repaired.locations = i.locations.map Location.repaired := by
  rw [locations, locations, map_append]
  congr 1
  · rw [repaired]
    cases i.dependencies <;> simp [CallNode.locations_repaired]
  · rw [repaired]
    cases i.location <;> rfl

lemma isComplete_repaired_iff {i : Issue} : i.repaired.IsComplete ↔ i.IsComplete := by
  rw [IsComplete, IsComplete, repaired]
  cases i.dependencies <;> simp [CallNode.hasGap_repaired]

end Issue

namespace Session

def repaired (s : Session) : Session where
  toolVersion := Text.repaired s.toolVersion
  hostname := Text.repaired s.hostname
  os := Text.repaired s.os
  arch := Text.repaired s.arch
  platform := ⟨Text.repaired s.platform.name⟩
  runtimeVersion := Text.repaired s.runtimeVersion
  revision := Text.repaired s.revision
  timestamp := s.timestamp

lemma repaired_toJson (s : Session) : s.toJson.repaired = s.repaired.toJson := by
  have htime : Text.repaired s.timestamp.text = s.timestamp.text :=
    Text.repaired_eq_self_iff.2 s.timestamp.isAscii_text.isValid
  rw [toJson, repaired_compactFields areJsonNames rfl, toJson]
  simp [repaired, Instant.toJson, repaired_string, htime]

lemma isClean_toJson (s : Session) : s.toJson.repaired.IsClean := by
  refine isClean_repaired_compactFields ?_
  simp [Instant.toJson]

lemma isStorable_repaired (s : Session) : s.repaired.IsStorable := by
  constructor <;> exact Text.isValid_repaired _

end Session

namespace ModuleRun

def repaired (r : ModuleRun) : ModuleRun where
  name := Text.repaired r.name
  categories := r.categories.map (·.map fun c => ⟨Text.repaired c.name⟩)
  start := r.start
  finish := r.finish
  outcome := ⟨Text.repaired r.outcome.label⟩
  error := Text.repaired r.error

lemma repaired_toJson (r : ModuleRun) : r.toJson.repaired = r.repaired.toJson := by
  have htime : ∀ t : Instant, t.toJson.repaired = t.toJson := fun t =>
    congrArg Json.string (Text.repaired_eq_self_iff.2 t.isAscii_text.isValid)
  have hcategories : r.categoriesJson.repaired = r.repaired.categoriesJson := by
    rw [categoriesJson, categoriesJson, repaired]
    cases r.categories <;> simp [strings, Json.repaired, repairedItems_eq_map, Function.comp_def]
  rw [toJson, repaired_compactFields areJsonNames rfl, toJson]
  simp only [map_cons, map_nil, map_some, repaired_string, repaired_text?, hcategories, htime]
  rfl

lemma isClean_toJson (r : ModuleRun) : r.toJson.repaired.IsClean := by
  have hcategories : r.categoriesJson.repaired.IsClean := by
    rw [categoriesJson]
    cases r.categories <;> simp [strings]
  refine isClean_repaired_compactFields ?_
  simp [Instant.toJson, hcategories]

end ModuleRun

namespace Descriptor

def repaired (d : Descriptor) : Descriptor where
  id := Text.repaired d.id
  title := Text.repaired d.title
  messageFormat := Text.repaired d.messageFormat
  defaultSeverity := ⟨Text.repaired d.defaultSeverity.label⟩
  areas := d.areas.map fun a => ⟨Text.repaired a.name⟩
  platforms := d.platforms.map fun p => ⟨Text.repaired p.name⟩
  minVersion := Text.repaired d.minVersion
  maxVersion := Text.repaired d.maxVersion
  description := Text.repaired d.description
  recommendation := Text.repaired d.recommendation
  documentationUrl := Text.repaired d.documentationUrl
  typeName := Text.repaired d.typeName
  method := Text.repaired d.method
  opcode := Text.repaired d.opcode

lemma repaired_toJson (d : Descriptor) : d.toJson.repaired = d.repaired.toJson := by
  rw [toJson, repaired_compactFields areJsonNames rfl, toJson]
  simp [repaired, repaired_string, Function.comp_def]

lemma isClean_toJson (d : Descriptor) : d.toJson.repaired.IsClean := by
  refine isClean_repaired_compactFields ?_
  simp

end Descriptor

namespace ParamLayer

def repaired (l : ParamLayer) : ParamLayer where
  platform := ⟨Text.repaired l.platform.name⟩
  values := l.values.map fun v => (Text.repaired v.1, v.2)

lemma repaired_toJson (l : ParamLayer) : l.toJson.repaired = l.repaired.toJson := by
  have hvalue : ∀ v : String × Int, (Json.object [("name", .string v.1), ("value", .int v.2)]).repaired =
      .object [("name", .string (Text.repaired v.1)), ("value", .int v.2)] := fun v => by
    rw [object_eq_compactFields, repaired_compactFields areValueNames rfl, object_eq_compactFields]
    rfl
  rw [toJson, object_eq_compactFields, repaired_compactFields areJsonNames rfl, toJson, object_eq_compactFields]
  simp [repaired, repaired_array_map, hvalue, repaired_string, Function.comp_def]

lemma isClean_toJson (l : ParamLayer) : l.toJson.repaired.IsClean := by
  have hvalue : ∀ v : String × Int, (Json.object [("name", .string v.1), ("value", .int v.2)]).repaired.IsClean :=
    fun v => by
      rw [object_eq_compactFields]
      refine isClean_repaired_compactFields ?_
      simp
  rw [toJson, object_eq_compactFields]
  refine isClean_repaired_compactFields ?_
  simp [hvalue]

end ParamLayer

lemma Rule.isClean_toJson (r : Rule) : r.toJson.repaired.IsClean := by
  refine isClean_repaired_compactFields ?_
  simp

namespace Report

/-- The report whose document is written for a report: its texts are repaired. -/
def asWritten (r : Report) : Report where
  session := r.session.repaired
  issues := r.issues.map Issue.repaired
  runs := r.runs.map ModuleRun.repaired
  catalog := ⟨r.catalog.list.map fun d => { descriptor := d.repaired }⟩
  params := {
    defaults := r.params.defaults.map fun v => (Text.repaired v.1, v.2)
    overrides := r.params.overrides.map ParamLayer.repaired }
  rules := ⟨r.rules.rules.map BytecodeAudit.Rule.repaired⟩

variable (r : Report)

lemma layers_asWritten : r.asWritten.params.layers = r.params.layers.map ParamLayer.repaired := by
  have hdefault : (ParamLayer.mk Platform.default r.params.defaults).repaired =
      ⟨Platform.default, r.params.defaults.map fun v => (Text.repaired v.1, v.2)⟩ := by
    have hname : Text.repaired Platform.default.name = Platform.default.name := Text.repaired_eq_self_iff.2 (by decide)
    rw [ParamLayer.repaired, hname]
  rw [Params.layers, Params.layers, map_cons, hdefault]
  rfl

lemma list_asWritten : r.asWritten.catalog.list = r.catalog.list.map Descriptor.repaired := by
  rw [asWritten, Catalog.list, List.map_map]
  rfl

lemma filter_issues_asWritten (p : Bool → Bool) :
    r.asWritten.issues.filter (fun i => p i.fixed) = (r.issues.filter fun i => p i.fixed).map Issue.repaired :=
  filter_map

lemma document_asWritten : r.asWritten.document = r.document.repaired := by
  have hsettings : r.settingsJson.repaired = r.asWritten.settingsJson := by
    rw [settingsJson, repaired_compactFields areSettingsNames rfl, settingsJson]
    have hrules : r.asWritten.rules.rules = r.rules.rules.map BytecodeAudit.Rule.repaired := rfl
    simp [Params.toJson, repaired_array_map, layers_asWritten, hrules, ParamLayer.repaired_toJson, Rule.repaired_toJson,
      Function.comp_def]
  have hissues : r.issuesJson.repaired = r.asWritten.issuesJson := by
    have hunfixed : r.asWritten.unfixed = r.unfixed.map Issue.repaired := r.filter_issues_asWritten (!·)
    have hfixed : r.asWritten.repaired = r.repaired.map Issue.repaired := r.filter_issues_asWritten id
    rw [issuesJson, repaired_compactFields areIssuesNames rfl, issuesJson, hunfixed, hfixed]
    simp [repaired_array_map, Issue.repaired_toJson, Function.comp_def]
  have hversion : Text.repaired formatVersion = formatVersion := Text.repaired_eq_self_iff.2 (by decide)
  symm
  rw [document_eq, repaired_compactFields areJsonNames rfl]
  simp only [map_cons, map_nil, map_some, hsettings, hissues, repaired_array_map, repaired_string,
    hversion, Session.repaired_toJson, Descriptor.repaired_toJson, ModuleRun.repaired_toJson]
  have hruns : r.asWritten.runs = r.runs.map ModuleRun.repaired := rfl
  rw [document_eq, list_asWritten, List.map_map, hruns, List.map_map]
  rfl

lemma isClean_document_asWritten : r.asWritten.document.IsClean := by
  have hsettings : r.settingsJson.repaired.IsClean := by
    refine isClean_repaired_compactFields ?_
    simp [Params.toJson, ParamLayer.isClean_toJson, Rule.isClean_toJson]
  have hissues : r.issuesJson.repaired.IsClean := by
    refine isClean_repaired_compactFields ?_
    simp [Issue.isClean_toJson]
  rw [document_asWritten, document_eq]
  refine isClean_repaired_compactFields ?_
  simp [hsettings, hissues, Session.isClean_toJson, Descriptor.isClean_toJson, ModuleRun.isClean_toJson]

lemma parse?_pretty_document {r : Report} (h : r.document.nesting ≤ maxDepth) :
    parse? (r.document.pretty 0 ++ "\n") = some r.asWritten.document := by
  rw [document_asWritten]
  refine parse?_pretty_of_repaired ?_ ?_
  · rw [← document_asWritten]
    exact r.isClean_document_asWritten
  · rwa [nesting_repaired]

end Report

open Report Report.Schema

open Text (isValid_repaired repaired_eq_empty_iff)

/-! ### Numbers that can be read -/

lemma Json.isLong_of_nonzero? {n : Int} (h : ∀ v, nonzero? n = some v → ∃ cur m, decodeInt cur v = some m) :
    Pack.IsLong n := by
  by_cases hzero : n = 0
  · exact hzero ▸ ⟨by decide, by decide⟩
  · obtain ⟨cur, m, hm⟩ := h (.int n) (by simp [nonzero?, hzero])
    exact isLong_of_decodeInt_int hm

namespace Location

structure IsLong (l : Location) : Prop where
  line : Pack.IsLong l.line
  column : Pack.IsLong l.column

lemma isLong_of_decode {cur x : Option Location} {l : Location} (h : decode cur l.toJson = some x) : l.IsLong := by
  have hfields : (decodeFields fieldNames setField (cur.getD ⟨"", 0, 0⟩) l.toJson).map some = some x := h
  obtain ⟨y, hy, -⟩ := map_eq_some_iff.1 hfields
  constructor
  · refine isLong_of_nonzero? fun v hv => ?_
    obtain ⟨a, b, hb⟩ := exists_set_of_field hy (k := "line") (v := v) (by decide) (mem_compactFields.2 (by simp [hv]))
    obtain ⟨m, hm, -⟩ := map_eq_some_iff.1 hb
    exact ⟨_, m, hm⟩
  · refine isLong_of_nonzero? fun v hv => ?_
    obtain ⟨a, b, hb⟩ := exists_set_of_field hy (k := "column") (v := v) (by decide)
      (mem_compactFields.2 (by simp [hv]))
    obtain ⟨m, hm, -⟩ := map_eq_some_iff.1 hb
    exact ⟨_, m, hm⟩

end Location

namespace CallNode

lemma ne_gap_of_setField {c b : CallNode} {k : String} {v : Json} (hc : c ≠ .gap) (h : c.setField k v = some b) :
    b ≠ .gap := by
  unfold setField at h
  split at h
  case h_8 => exact some.inj h ▸ hc
  all_goals
    obtain ⟨x, -, rfl⟩ := map_eq_some_iff.1 h
    exact nofun

lemma ne_gap_of_decodeOver {c x : CallNode} {j : Json} (hc : c ≠ .gap) (h : decodeOver c j = some x) : x ≠ .gap := by
  rw [decodeOver_eq] at h
  exact decodeFields_invariant (P := (· ≠ gap)) h hc fun _ _ _ _ ha _ _ hb => ne_gap_of_setField ha hb

mutual

-- Over a gap nothing is read, so the induction needs a frame to read over.
lemma isLong_of_decodeOver : ∀ (c : CallNode) {cur x : CallNode}, cur ≠ .gap → decodeOver cur c.toJson = some x →
    ∀ l ∈ c.locations, l.IsLong
  | .gap, _, _, _, _ => forall_mem_nil _
  | .mk n t m o l cs b, cur, x, hcur, h => by
    rw [decodeOver_eq, toJson] at h
    rw [locations, forall_mem_append]
    constructor
    · intro y hy
      obtain rfl := mem_toList.1 hy
      obtain ⟨a, b, ha, hb⟩ := exists_set_of_mem h hcur (fun _ _ _ _ => ne_gap_of_setField) (k := "location")
        (v := y.toJson) (by decide) (mem_compactFields.2 (by simp))
      cases a with
      | gap => exact absurd rfl ha
      | mk =>
        obtain ⟨z, hz, -⟩ := map_eq_some_iff.1 hb
        exact Location.isLong_of_decode hz
    · by_cases hnil : childrenToJson cs = []
      · cases cs with
        | nil => exact nofun
        | cons => cases hnil
      · obtain ⟨a, b, ha, hb⟩ := exists_set_of_mem h hcur (fun _ _ _ _ => ne_gap_of_setField) (k := "children")
          (v := .array (childrenToJson cs)) (by decide) (mem_compactFields.2 (by simp [nonempty?, hnil]))
        cases a with
        | gap => exact absurd rfl ha
        | mk =>
          obtain ⟨z, hz, -⟩ := map_eq_some_iff.1 hb
          exact isLong_of_decodeItems cs hz

lemma isLong_of_decodeItems : ∀ (cs : List CallNode) {xs : List CallNode},
    decodeItems (childrenToJson cs) = some xs → ∀ l ∈ locationsBelow cs, l.IsLong
  | [], _, _ => forall_mem_nil _
  | c :: cs, xs, h => by
    rw [childrenToJson, decodeItems_eq_mapM, mapM_cons] at h
    obtain ⟨x, hx, hrest⟩ := bind_eq_some_iff.1 h
    obtain ⟨ys, hys, -⟩ := bind_eq_some_iff.1 hrest
    rw [← decodeItems_eq_mapM] at hys
    rw [locationsBelow, forall_mem_append]
    refine ⟨?_, isLong_of_decodeItems cs hys⟩
    split at hx
    · next hnull =>
      cases c with
      | gap => exact nofun
      | mk => cases hnull
    · exact @isLong_of_decodeOver c (named "") x nofun hx

end

end CallNode

lemma Issue.ne_gap_of_setField {i b : Issue} {k : String} {v : Json} (hi : i.dependencies ≠ some .gap)
    (h : i.setField k v = some b) : b.dependencies ≠ some .gap := by
  unfold setField at h
  split at h
  case h_5 =>
    obtain ⟨x, hx, rfl⟩ := map_eq_some_iff.1 h
    have hover : i.dependencies.getD (.named "") ≠ .gap := by
      cases hd : i.dependencies with
      | none => exact nofun
      | some c => exact fun hc => hi (hd.trans (congrArg some hc))
    rw [CallNode.decode.eq_def] at hx
    split at hx
    · exact some.inj hx ▸ nofun
    · obtain ⟨c, hc, rfl⟩ := map_eq_some_iff.1 hx
      exact fun hgap => CallNode.ne_gap_of_decodeOver hover hc (some.inj hgap)
  case h_9 => exact some.inj h ▸ hi
  all_goals
    obtain ⟨x, -, rfl⟩ := map_eq_some_iff.1 h
    exact hi

lemma Issue.isLong_of_decode {i x : Issue} (h : decode i.toJson = some x) : ∀ l ∈ i.locations, l.IsLong := by
  have hstart : (Issue.mk ⟨""⟩ .default "" "" none none [] false).dependencies ≠ some .gap := by rintro ⟨⟩
  rw [locations, forall_mem_append]
  constructor
  · cases hd : i.dependencies with
    | none => exact forall_mem_nil _
    | some c =>
      obtain ⟨a, b, ha, hb⟩ := exists_set_of_mem h hstart (fun _ _ _ _ => ne_gap_of_setField) (k := "dependencies")
        (v := c.toJson) (by decide) (mem_compactFields.2 (by simp [hd]))
      obtain ⟨y, hy, -⟩ := map_eq_some_iff.1 hb
      cases c with
      | gap => exact forall_mem_nil _
      | mk n t m o l cs tr =>
        obtain ⟨z, hz, -⟩ := map_eq_some_iff.1 hy
        refine CallNode.isLong_of_decodeOver (.mk n t m o l cs tr) ?_ hz
        cases hc : a.dependencies with
        | none => rintro ⟨⟩
        | some c => exact fun hgap => ha (hc.trans (congrArg some hgap))
  · intro l hl
    obtain ⟨a, b, hb⟩ := exists_set_of_field h (k := "location")
      (v := l.toJson) (by decide) (mem_compactFields.2 (by simp [mem_toList.1 hl]))
    obtain ⟨y, hy, -⟩ := map_eq_some_iff.1 hb
    exact Location.isLong_of_decode hy

lemma ParamLayer.isLong_of_decode {l x : ParamLayer} (h : decode l.toJson = some x) :
    ∀ v ∈ l.values, Pack.IsLong v.2 := by
  intro v hv
  obtain ⟨a, b, hb⟩ := exists_set_of_field h (k := "params") (by decide) (.tail _ (.head _))
  obtain ⟨ys, hys, -⟩ := map_eq_some_iff.1 hb
  obtain ⟨y, hy⟩ := exists_of_mem_array hys (mem_map_of_mem hv)
  obtain ⟨c, d, hd⟩ := exists_set_of_field hy (k := "value") (by decide) (.tail _ (.head _))
  obtain ⟨m, hm, -⟩ := map_eq_some_iff.1 hd
  exact isLong_of_decodeInt_int hm

lemma Report.isLong_of_decodePlain {r : Report} {p : Parts} (h : Parts.decodePlain r.document = some p) :
    (∀ l ∈ r.params.layers, ∀ v ∈ l.values, Pack.IsLong v.2) ∧ ∀ i ∈ r.issues, ∀ l ∈ i.locations, l.IsLong := by
  constructor
  · obtain ⟨a, b, hb⟩ := exists_set_of_field h (k := "settings") (by decide) (.tail _ (.tail _ (.tail _ (.head _))))
    rw [show ∀ v, a.setField "settings" v = decodeFields ["params", "rules"] Parts.setSettings a v from
      fun _ => rfl] at hb
    obtain ⟨c, d, hd⟩ := exists_set_of_field hb (k := "params") (by decide) (.head _)
    obtain ⟨ls, hls, -⟩ := map_eq_some_iff.1 hd
    intro l hl
    obtain ⟨x, hx⟩ := exists_of_mem_array hls (mem_map_of_mem hl)
    exact ParamLayer.isLong_of_decode hx
  · obtain ⟨a, b, hb⟩ := exists_set_of_field h (k := "issues") (by decide)
      (.tail _ (.tail _ (.tail _ (.tail _ (.tail _ (.head _))))))
    have hlist : ∀ {is : List Issue} {xs}, decodeList (decodeOptional Issue.decode) (.array (is.map Issue.toJson)) =
        some xs → ∀ i ∈ is, ∀ l ∈ i.locations, l.IsLong := fun hxs i hi => by
      obtain ⟨x, hx⟩ := exists_of_mem_array hxs (mem_map_of_mem hi)
      obtain ⟨y, hy, -⟩ := map_eq_some_iff.1 (show (Issue.decode i.toJson).map some = some x from hx)
      exact Issue.isLong_of_decode hy
    rw [show ∀ v, a.setField "issues" v = decodeFields ["unfixed", "fixed"] Parts.setIssues a v from
      fun _ => rfl] at hb
    obtain ⟨c, d, hd⟩ := exists_set_of_field hb (k := "unfixed") (by decide) (.head _)
    obtain ⟨us, hus, -⟩ := map_eq_some_iff.1 hd
    obtain ⟨e, f, hf⟩ := exists_set_of_field hb (k := "fixed") (by decide) (.tail _ (.head _))
    obtain ⟨fs, hfs, -⟩ := map_eq_some_iff.1 hf
    intro i hi
    by_cases hfixed : i.fixed = true
    · exact hlist hfs i (mem_filter.2 ⟨hi, hfixed⟩)
    · exact hlist hus i (mem_filter.2 ⟨hi, by simpa using hfixed⟩)

/-! ### Repaired records can be stored -/

lemma Report.Schema.isSeverity_repaired_iff {s : String} : isSeverity (Text.repaired s) = true ↔ isSeverity s := by
  constructor
  · intro h
    rwa [Text.repaired_eq_self_of_isAscii (isAscii_of_isSeverity h)] at h
  · intro h
    rwa [Text.repaired_eq_self_iff.2 (isValid_of_isSeverity h)]

lemma Location.IsNatural.isStorable_repaired {l : Location} (h : l.IsNatural) (hlong : l.IsLong) :
    l.repaired.IsStorable := by
  refine ⟨isValid_repaired l.path, ?_, ?_, ?_, ?_⟩
  · rw [Location.line_repaired]
    exact h.line
  · rw [Location.line_repaired]
    exact hlong.line
  · rw [Location.column_repaired]
    exact h.column
  · rw [Location.column_repaired]
    exact hlong.column

mutual

lemma CallNode.isStorable_repaired : ∀ c : CallNode, (∀ l ∈ c.locations, l.repaired.IsStorable) →
    c.repaired.IsStorable
  | .gap, _ => trivial
  | .mk _ _ _ _ l cs _, h => by
    rw [CallNode.locations, forall_mem_append] at h
    refine ⟨isValid_repaired _, isValid_repaired _, isValid_repaired _, isValid_repaired _, ?_,
      areStorable_repairedList cs h.2⟩
    intro x hx
    obtain ⟨y, hy, rfl⟩ := map_eq_some_iff.1 hx
    exact h.1 y (mem_toList.2 hy)

lemma CallNode.areStorable_repairedList : ∀ cs : List CallNode, (∀ l ∈ locationsBelow cs, l.repaired.IsStorable) →
    AreStorable (repairedList cs)
  | [], _ => trivial
  | c :: cs, h => by
    rw [CallNode.locationsBelow, forall_mem_append] at h
    exact ⟨isStorable_repaired c h.1, areStorable_repairedList cs h.2⟩

end

/-- What every issue of an analyzer has, whatever the analyzer looked at. -/
structure Issue.IsRegular (i : Issue) : Prop where
  category_ne : i.category.name ≠ ""
  severity : isSeverity i.severity.label = true
  complete : i.IsComplete

lemma Issue.IsRegular.isStorable_repaired {i : Issue} (h : i.IsRegular)
    (hlocations : ∀ l ∈ i.locations, l.IsNatural ∧ l.IsLong) : i.repaired.IsStorable := by
  have hstorable : ∀ l ∈ i.locations, l.repaired.IsStorable := fun l hl =>
    (hlocations l hl).1.isStorable_repaired (hlocations l hl).2
  rw [locations, forall_mem_append] at hstorable
  refine ⟨isValid_repaired _, ?_, isSeverity_repaired_iff.2 h.severity, isValid_repaired _,
    isValid_repaired _, ?_, ?_, forall_mem_map.2 fun p _ => isValid_repaired p⟩
  · exact fun hempty => h.category_ne (Text.repaired_eq_empty_iff.1 hempty)
  · intro n hn
    obtain ⟨c, hc, rfl⟩ := map_eq_some_iff.1 hn
    rw [hc] at hstorable
    exact CallNode.isStorable_repaired c hstorable.1
  · intro x hx
    obtain ⟨l, hl, rfl⟩ := map_eq_some_iff.1 hx
    exact hstorable.2 l (mem_toList.2 hl)

structure ModuleRun.IsRegular (r : ModuleRun) : Prop where
  start : r.start.IsStandard
  finish : r.finish.IsStandard
  outcome : r.outcome ∈ Outcome.known

lemma ModuleRun.isStorable_repaired {r : ModuleRun} (h : r.outcome ∈ Outcome.known) : r.repaired.IsStorable where
  name := isValid_repaired _
  categories := by
    intro c hc
    rw [analyzed, repaired] at hc
    cases hcategories : r.categories with
    | none => simp [hcategories] at hc
    | some cs =>
      simp only [hcategories, map_some, getD_some] at hc
      obtain ⟨d, -, rfl⟩ := mem_map.1 hc
      exact isValid_repaired _
  outcome := by
    have hknown : ∀ x ∈ Outcome.known, Text.IsAscii x.label := by decide
    rwa [repaired, Text.repaired_eq_self_iff.2 (hknown _ h).isValid]
  error := isValid_repaired _

namespace Descriptor

lemma isStorable_repaired {d : Descriptor} (h : isSeverity d.defaultSeverity.label) : d.repaired.IsStorable where
  title := isValid_repaired _
  messageFormat := isValid_repaired _
  defaultSeverity := isSeverity_repaired_iff.2 h
  areas := forall_mem_map.2 fun _ _ => isValid_repaired _
  platforms := forall_mem_map.2 fun _ _ => isValid_repaired _
  minVersion := isValid_repaired _
  maxVersion := isValid_repaired _
  description := isValid_repaired _
  recommendation := isValid_repaired _
  documentationUrl := isValid_repaired _
  typeName := isValid_repaired _
  method := isValid_repaired _
  opcode := isValid_repaired _

lemma id_repaired {d : Descriptor} (h : d.validate = .ok ()) : d.repaired.id = d.id :=
  Text.repaired_eq_self_iff.2 (isAscii_of_isValidId (isValidId_of_validate h)).isValid

/-- A check looks at no text that repairing could change: ids and labels are plain, and others are
only asked to be there. -/
lemma validate_repaired {d : Descriptor} (h : d.validate = .ok ())
    (hseverity : isSeverity d.defaultSeverity.label) : d.repaired.validate = .ok () := by
  obtain ⟨hid, htitle, hparse, hmethod⟩ := validate_eq_ok_iff.1 h
  have hlabel : d.repaired.defaultSeverity = d.defaultSeverity :=
    congrArg Severity.mk (Text.repaired_eq_self_iff.2 (isValid_of_isSeverity hseverity))
  refine validate_eq_ok_iff.2 ⟨(id_repaired h).symm ▸ hid, ?_, hlabel.symm ▸ hparse, ?_⟩
  · exact fun hempty => htitle (Text.repaired_eq_empty_iff.1 hempty)
  · exact fun hempty => Text.repaired_eq_empty_iff.2 (hmethod (Text.repaired_eq_empty_iff.1 hempty))

end Descriptor

lemma ParamLayer.isStorable_repaired {l : ParamLayer} (h : ∀ v ∈ l.values, v.1 ≠ "" ∧ Pack.IsLong v.2) :
    l.repaired.IsStorable where
  platform := isValid_repaired _
  names := forall_mem_map.2 fun v hv =>
    ⟨isValid_repaired _, fun hempty => (h v hv).1 (Text.repaired_eq_empty_iff.1 hempty)⟩
  values := forall_mem_map.2 fun v hv => (h v hv).2

lemma Rule.isStorable_repaired {r : Rule} (h : isSeverity r.severity.label) : r.repaired.IsStorable :=
  ⟨isValid_repaired _, isValid_repaired _, isSeverity_repaired_iff.2 h⟩

namespace Report

/-- Whether a report can be written, and what is written has the form of a report and can be
read. -/
def IsAccepted (r : Report) : Prop :=
  ∃ text r', r.write = .ok text ∧ validate text = .ok () ∧ read text = .ok r'

/-- What every report of an audit has, whatever was configured and analyzed. -/
structure IsRegular (r : Report) : Prop where
  registered : r.catalog.IsRegistered
  timestamp : r.session.timestamp.IsStandard
  runs : ∀ x ∈ r.runs, x.IsRegular
  issues : ∀ i ∈ r.issues, i.IsRegular

/-- What a report must have to be accepted beyond what every report of an audit has. -/
structure IsAdmissible (r : Report) : Prop where
  /-- Severities are labels as they are listed, in their spelling. -/
  rules : ∀ x ∈ r.rules.rules, isSeverity x.severity.label = true
  descriptors : ∀ d ∈ r.catalog.list, isSeverity d.defaultSeverity.label = true
  params : ∀ l ∈ r.params.layers, ∀ v ∈ l.values, v.1 ≠ "" ∧ Pack.IsLong v.2
  locations : ∀ i ∈ r.issues, ∀ l ∈ i.locations, l.IsNatural ∧ l.IsLong
  nesting : r.document.nesting ≤ maxDepth

lemma IsRegular.times {r : Report} (h : r.IsRegular) : ∀ t ∈ r.times, t.IsStandard := by
  refine forall_mem_cons.2 ⟨h.timestamp, fun t ht => ?_⟩
  obtain ⟨x, hx, ht⟩ := mem_flatMap.1 ht
  have hboth : t = x.start ∨ t = x.finish := by simpa using ht
  rcases hboth with rfl | rfl
  · exact (h.runs x hx).start
  · exact (h.runs x hx).finish

section

variable {r : Report} (h : r.IsRegular) (ha : r.IsAdmissible)
include h ha

lemma IsAdmissible.isWritable : r.IsWritable where
  times := h.times
  complete i hi := (h.issues i hi).complete
  nesting := ha.nesting

lemma IsAdmissible.hasStorableParts_asWritten : r.asWritten.HasStorableParts where
  session := Session.isStorable_repaired _
  issues := forall_mem_map.2 fun i hi => (h.issues i hi).isStorable_repaired (ha.locations i hi)
  runs := forall_mem_map.2 fun x hx => ModuleRun.isStorable_repaired (h.runs x hx).outcome
  valid := by
    rw [list_asWritten]
    exact forall_mem_map.2 fun d hd =>
      Descriptor.validate_repaired (h.registered.areOrdered.validate_eq d hd) (ha.descriptors d hd)
  descriptors := by
    rw [list_asWritten]
    exact forall_mem_map.2 fun d hd => Descriptor.isStorable_repaired (ha.descriptors d hd)
  layers := by
    rw [layers_asWritten]
    exact forall_mem_map.2 fun l hl => ParamLayer.isStorable_repaired (ha.params l hl)
  rules := forall_mem_map.2 fun x hx => Rule.isStorable_repaired (ha.rules x hx)

lemma IsAdmissible.isWritable_asWritten : r.asWritten.IsWritable where
  times := by
    have htimes : r.asWritten.times = r.times := by
      rw [Report.times, Report.times, asWritten, flatMap_map]
      rfl
    rw [htimes]
    exact (ha.isWritable h).times
  complete := forall_mem_map.2 fun i hi => Issue.isComplete_repaired_iff.2 (h.issues i hi).complete
  nesting := by
    rw [document_asWritten, nesting_repaired]
    exact ha.nesting

lemma IsAdmissible.areOrdered_asWritten : Catalog.AreOrdered r.asWritten.catalog.list := by
  have hordered := h.registered.areOrdered
  have hparts := ha.hasStorableParts_asWritten h
  refine ⟨?_, hparts.valid⟩
  rw [list_asWritten, pairwise_map]
  refine hordered.ascending.imp_of_mem fun {a b} hmem hmem' hlt => ?_
  rwa [Descriptor.id_repaired (hordered.validate_eq a hmem), Descriptor.id_repaired (hordered.validate_eq b hmem')]

lemma IsAdmissible.isAccepted : r.IsAccepted := by
  have hparts := ha.hasStorableParts_asWritten h
  have hw := ha.isWritable_asWritten h
  have htext : r.document.pretty 0 = r.asWritten.document.pretty 0 := by rw [document_asWritten, pretty_repaired]
  have hform := wellFormed?_pretty_document hparts hw
  have hread := (read_eq hform (decode_document hparts hw)).trans
    (parts_report_of_areOrdered (ha.areOrdered_asWritten h))
  rw [← htext] at hform hread
  refine ⟨_, _, write_eq (ha.isWritable h), ?_, hread⟩
  rw [validate, hform]

end

/-- What is accepted is admissible. What the schema asks for of the report as it is written has to
be taken back to the report. -/
lemma isAdmissible_of_isAccepted {r : Report} (h : r.IsAccepted) : r.IsAdmissible := by
  obtain ⟨text, r', hwrite, -, hread⟩ := h
  obtain ⟨-, hnesting, rfl⟩ := exists_of_write hwrite
  obtain ⟨j, p, hj, hp, -⟩ := exists_of_read hread
  obtain ⟨hparse, hschema⟩ := filter_eq_some_iff.1 hj
  rw [parse?_pretty_document hnesting] at hparse
  cases hparse
  have hadmitted := schema_document_iff.1 hschema
  rw [Parts.decode] at hp
  obtain ⟨q, hq, -⟩ := bind_eq_some_iff.1 hp
  obtain ⟨hparams, hlocations⟩ := isLong_of_decodePlain hq
  have hlayers := hadmitted.layers
  have hdescriptors := hadmitted.descriptors
  rw [layers_asWritten] at hparams hlayers
  rw [list_asWritten] at hdescriptors
  refine ⟨fun x hx => ?_, fun d hd => ?_, fun l hl v hv => ⟨?_, ?_⟩, fun i hi l hl => ?_, hnesting⟩
  · exact isSeverity_repaired_iff.1 (hadmitted.rules x.repaired (mem_map_of_mem hx))
  · exact isSeverity_repaired_iff.1 (hdescriptors d.repaired (mem_map_of_mem hd)).2
  · intro hempty
    exact hlayers l.repaired (mem_map_of_mem hl) _ (mem_map_of_mem hv) (Text.repaired_eq_empty_iff.2 hempty)
  · exact hparams l.repaired (mem_map_of_mem hl) (Text.repaired v.1, v.2) (mem_map_of_mem hv)
  · have hmem : l.repaired ∈ i.repaired.locations := by
      rw [Issue.locations_repaired]
      exact mem_map_of_mem hl
    have hnatural := (hadmitted.issues _ (mem_map_of_mem hi)).locations _ hmem
    have hlong := hlocations _ (mem_map_of_mem hi) _ hmem
    exact ⟨⟨l.line_repaired ▸ hnatural.line, l.column_repaired ▸ hnatural.column⟩,
      ⟨l.line_repaired ▸ hlong.line, l.column_repaired ▸ hlong.column⟩⟩

lemma isAccepted_iff_isAdmissible {r : Report} (h : r.IsRegular) : r.IsAccepted ↔ r.IsAdmissible :=
  ⟨isAdmissible_of_isAccepted, fun ha => ha.isAccepted h⟩

end Report

end BytecodeAudit
