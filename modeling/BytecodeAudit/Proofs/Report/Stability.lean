import Mathlib
import BytecodeAudit.Proofs.Report.RoundTrip

/-!
# Reports that were loaded can be saved

The schema looks at names as they are written and at the last of several fields with one name; the
readers take a name in any spelling and read a field over the one before it. Where a document holds
no name twice and none in another spelling, both see the same values, so that a report that was read
from it can be written and read again.
-/

namespace BytecodeAudit

open List Option

open Json Report.Schema

lemma Params.isStorable_ofLayers {ls : List ParamLayer} (h : ∀ l ∈ ls, l.IsStorable) :
    ∀ l ∈ (ofLayers ls).layers, l.IsStorable := by
  have hempty : ∀ l ∈ empty.layers, l.IsStorable := forall_mem_singleton.2 ⟨by decide, nofun, nofun⟩
  refine foldlRecOn (motive := fun s => ∀ l ∈ s.layers, l.IsStorable) ls addLayer hempty fun s hs x hx l hl => ?_
  have hadded : ∀ vs : ParamValues, (∀ v ∈ vs, (Text.IsValid v.1 ∧ v.1 ≠ "") ∧ Pack.IsLong v.2) →
      (ParamLayer.mk (Platform.parse x.platform.name) (ParamValues.insertAll vs x.values)).IsStorable := by
    intro vs hvs
    have hall : ∀ v ∈ ParamValues.insertAll vs x.values, (Text.IsValid v.1 ∧ v.1 ≠ "") ∧ Pack.IsLong v.2 :=
      fun v hv => (ParamValues.mem_insertAll hv).elim (hvs v) fun hv => ⟨(h x hx).names v hv, (h x hx).values v hv⟩
    have hplatform := Platform.isValid_parse x.platform.name
    exact ⟨hplatform, fun v hv => (hall v hv).1, fun v hv => (hall v hv).2⟩
  rcases mem_layers_update hl with hl | rfl | ⟨y, hy, rfl⟩
  · exact hs l hl
  · exact hadded [] (nofun)
  · exact hadded y.values fun v hv => ⟨(hs y hy).names v hv, (hs y hy).values v hv⟩

namespace Report

lemma mem_of_present {α : Type} {xs : List (Option α)} {ys : List α} (h : Parts.present xs = .ok ys) {y : α}
    (hy : y ∈ ys) : some y ∈ xs := by
  rw [Parts.present] at h
  split at h
  · next zs hzs =>
    cases h
    obtain ⟨x, hx, hxy⟩ := Pack.exists_of_mem_mapM hzs hy
    exact hxy ▸ hx
  · cases h

lemma isStorable_of_report {depth : Nat} {p : Parts} {r : Report} (hp : p.IsLoaded depth) (h : p.report = .ok r) :
    r.IsStorable ∧ ∀ i ∈ r.issues, i.IsLoaded (depth - 3) := by
  obtain ⟨ds, is, catalog, -, his, hcatalog, rfl⟩ := Parts.exists_of_report h
  obtain ⟨hregistered, hdescriptors⟩ := Catalog.IsRegistered.empty.registerAll hcatalog
  have hissues : ∀ i ∈ is, i.IsLoaded (depth - 3) := fun i hi =>
    (mem_append.1 (mem_of_present his hi)).elim (hp.unfixed i) (hp.fixed i)
  refine ⟨?_, hissues⟩
  exact {
    session := hp.session
    issues := fun i hi => (hissues i hi).storable
    runs := hp.runs
    registered := hregistered
    descriptors := fun d hd => by
      obtain ⟨x, hx, hxd⟩ := mem_filterMap.1 ((hdescriptors d hd).resolve_left not_mem_nil)
      obtain rfl : x = some d := hxd
      exact hp.descriptors d ((takeWhile_sublist _).subset hx)
    normal := { Params.isNormal_ofLayers fun l hl => (hp.layers l hl).platform.isText with }
    layers := Params.isStorable_ofLayers hp.layers
    added := ⟨p.rules, rfl⟩
    rules := fun x hx => hp.rules x (RuleSet.mem_of_mem_ofList hx) }

lemma isFaithful_of_wellFormed? {text : String} {j : Json} (h : wellFormed? text = some j)
    (hunrepeated : j.isRepeating = false) (hexact : j.hasVariant knownNames = false) :
    j.IsFaithful knownNames ∧ j.nesting ≤ maxDepth ∧ Schema.document j := by
  obtain ⟨hparse, hschema⟩ := filter_eq_some_iff.1 h
  have hread := isRead_of_parse? hparse
  exact ⟨⟨hread.legible, hunrepeated, hexact⟩, hread.nesting_le, hschema⟩

/-- A report that is read from a faithful document holds only values of the schema, and can be
written and read again, unless a time is a day or more apart from universal time. -/
theorem isStorable_and_roundTrips_of_read {text : String} {j : Json} {r : Report} (hj : wellFormed? text = some j)
    (hr : read text = .ok r) (hunrepeated : j.isRepeating = false) (hexact : j.hasVariant knownNames = false)
    (hoffset : ∀ t ∈ r.times, t.offset.natAbs < 24 * 3600) : r.IsStorable ∧ r.RoundTrips := by
  obtain ⟨hfaithful, hdepth, hschema⟩ := isFaithful_of_wellFormed? hj hunrepeated hexact
  have htimes := isLoaded_of_read hr
  obtain ⟨j', p, hj', hp, hreport⟩ := exists_of_read hr
  obtain rfl : j = j' := Option.some.inj (hj.symm.trans hj')
  obtain ⟨_, hplain, hsame⟩ := Parts.exists_decodePlain_of_decode hp
  obtain rfl := hsame hunrepeated
  obtain ⟨hstorable, hissues⟩ := isStorable_of_report (Parts.isLoaded_of_decodePlain hfaithful hschema hplain) hreport
  -- a caller tree nests no deeper than in the document that it was read from
  have hnested : ∀ i ∈ r.issues, i.toJson.nesting ≤ maxDepth - 3 := fun i hi => by
    refine Issue.nesting_toJson_le (n := maxDepth - 4) (fun c hc => ?_) (by decide)
    have hcallers := (hissues i hi).callers c hc
    omega
  have hwritable : r.IsWritable := {
    times := fun t ht => htimes t ht (hoffset t ht)
    complete := fun i hi => (hissues i hi).complete
    nesting := nesting_document_le hnested (by decide) }
  exact ⟨hstorable, roundTrips_of_isWritable hstorable hwritable⟩

theorem roundTrips_reloaded_mixed : mixed.reloaded.IsStorable ∧ mixed.reloaded.RoundTrips := by
  have hform := wellFormed?_pretty_document isStorable_mixed.hasStorableParts isWritable_mixed
  have hread := read_pretty_document isStorable_mixed isWritable_mixed
  have hunrepeated := (isPlain_document isStorable_mixed.hasStorableParts).unrepeated
  have hexact : mixed.document.hasVariant knownNames = false := by decide
  have hoffset : ∀ t ∈ mixed.reloaded.times, t.offset.natAbs < 24 * 3600 := by decide
  exact isStorable_and_roundTrips_of_read hform hread hunrepeated hexact hoffset

/-! ### A severity in disguise -/

def disguise : Json :=
  .object [("category", .string "code"), ("description", .string "d"), ("Severity", .string "bogus")]

/-- A document with that issue. -/
def disguised : Json :=
  .object [("format_version", .string formatVersion), ("session", Session.toJson { timestamp := ⟨0, 0⟩ }),
    ("descriptors", .array []), ("settings", .object [("params", .array []), ("rules", .array [])]),
    ("modules", .array []), ("issues", .object [("unfixed", .array [disguise]), ("fixed", .array [])])]

def bogus : Report := bare ⟨0, 0⟩ [{ category := .code, severity := ⟨"bogus"⟩, description := "d" }]

lemma isClean_disguised : disguised.IsClean := by
  have hsession : (Session.toJson { timestamp := ⟨0, 0⟩ }).IsClean :=
    (Session.isPlain_toJson (by constructor <;> decide)).clean
  simp only [disguised, disguise, IsClean, HaveClean, AreClean, hsession, and_true, true_and]
  decide

lemma decode_disguised : Parts.decode disguised =
    some { session := { timestamp := ⟨0, 0⟩ }
           unfixed := [some { category := .code, severity := ⟨"bogus"⟩, description := "d" }] } := by
  cbv

lemma read_disguised : read (disguised.pretty 0 ++ "\n") = .ok bogus := by
  have hform : wellFormed? (disguised.pretty 0 ++ "\n") = some disguised := by
    rw [wellFormed?, parse?_pretty isClean_disguised (by decide), filter_some, if_pos (by decide)]
  exact (read_eq hform decode_disguised).trans rfl

lemma isPlain_bogus : bogus.document.IsPlain := by
  have hissue : (Issue.toJson { category := .code, severity := ⟨"bogus"⟩, description := "d" }).IsPlain := by
    refine isPlain_compactFields Issue.areJsonNames rfl ?_
    have hvalid : ∀ s ∈ ["code", "bogus", "d"], Text.IsValid s := by decide
    simpa [Category.code] using hvalid
  have hbare := isStorable_bare ⟨0, 0⟩ (forall_mem_nil _)
  exact isPlain_document_of_parts (Session.isPlain_toJson hbare.session) (forall_mem_nil _)
    (fun l hl => ParamLayer.isPlain_toJson (hbare.layers l hl).platform fun v hv => ((hbare.layers l hl).names v hv).1)
    (forall_mem_nil _) (forall_mem_nil _) (forall_mem_singleton.2 hissue)

/-- What is read from the document holds a severity that is not known, and it cannot be read
again. -/
theorem not_roundTrips_bogus : read (disguised.pretty 0 ++ "\n") = .ok bogus ∧ ¬ bogus.IsStorable ∧
    ¬ bogus.RoundTrips := by
  refine ⟨read_disguised, fun h => ?_, ?_⟩
  · have hseverity := (h.issues _ List.mem_cons_self).severity
    exact absurd hseverity (by decide)
  · rintro ⟨text, r', hwrite, hread, -⟩
    obtain ⟨-, hnesting, rfl⟩ := exists_of_write hwrite
    obtain ⟨j, p, hj, -⟩ := exists_of_read hread
    obtain ⟨hparse, hschema⟩ := Option.filter_eq_some_iff.1 hj
    rw [parse?_pretty isPlain_bogus.clean hnesting] at hparse
    obtain rfl := Option.some.inj hparse
    exact absurd hschema (by decide)

end Report

end BytecodeAudit
