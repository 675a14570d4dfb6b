import BytecodeAudit.Auditor
import BytecodeAudit.Proofs.Report.Forms
import BytecodeAudit.Proofs.Report.Rebuild

/-!
# Setting up auditors

A configuration is accepted if its platforms and format are known, the call depth is not negative,
and every rule has a severity that can be read and names a descriptor (`validate_eq_ok_iff`).

An auditor that can be set up with the built-in analyzers has a catalog that was filled by
registering descriptors one after another, whatever databases are configured
(`isBuiltin_of_create`). Every configuration that fits them can be set up (`exists_create`).
-/

namespace BytecodeAudit

open List

lemma Severity.eq_default_or_mem_known_of_parse {s : String} {t : Severity} (h : parse s = .ok t) : t = default ∨ t ∈ known := by
  rw [parse] at h
  split at h
  · exact .inl (Except.ok.inj h).symm
  · split at h
    · next hknown => exact .inr (Except.ok.inj h ▸ contains_iff_mem.1 hknown)
    · cases h

lemma Severity.parse_label {s : Severity} (h : s ∈ known) : parse s.label = .ok s := by
  have hlabels : ∀ x ∈ known, Text.IsAscii x.label ∧ Text.IsSmall x.label ∧ x.label ≠ "default" ∧ x.label ≠ "" := by
    decide
  obtain ⟨hascii, hsmall, hdefault, hempty⟩ := hlabels s h
  have hnot : ¬ (s.label == "default" || s.label == "") = true := by simp [hdefault, hempty]
  rw [parse, Text.lower_trim_eq_self hascii hsmall, if_neg hnot]
  exact if_pos (contains_iff_mem.2 h)

lemma Severity.not_isDefault_of_mem_known : ∀ s ∈ known, s.isDefault = false := by decide

namespace Config

structure AcceptsRule (catalog : Option Catalog) (r : Rule) : Prop where
  severity : ∃ s, Severity.parse r.severity.label = .ok s
  /-- With a catalog, the rule names a descriptor in it. -/
  registered : ∀ c, catalog = some c → ∃ d, c.get? r.id = some d

structure IsAcceptable (c : Config) (catalog : Option Catalog) : Prop where
  platform : (Platform.parse c.analysis.platform).isKnown = true
  supported : ∀ p ∈ c.analysis.supportedPlatforms, (Platform.parse p).isKnown = true
  callDepth : 0 ≤ c.analysis.callDepth
  params : ∀ l ∈ c.params, (Platform.parse l.platform.name).isKnown = true
  rules : ∀ r ∈ c.rules, AcceptsRule catalog r
  format : c.output.format ∈ knownFormats

lemma unknownPlatform_eq_nil_iff {what name : String} :
    unknownPlatform what name = [] ↔ (Platform.parse name).isKnown := by
  rw [unknownPlatform]
  split <;> simp_all

variable {catalog : Option Catalog}

lemma ruleFaults_eq_nil_iff {i : Nat} {r : Rule} : ruleFaults catalog i r = [] ↔ AcceptsRule catalog r := by
  cases hs : Severity.parse r.severity.label with
  | error e =>
    refine ⟨fun h => ?_, fun h => ?_⟩
    · simp [ruleFaults, hs] at h
    · obtain ⟨s, hs'⟩ := h.severity
      rw [hs] at hs'
      cases hs'
  | ok s =>
    cases catalog with
    | none => exact ⟨fun _ => ⟨⟨s, hs⟩, nofun⟩, fun _ => by simp [ruleFaults, hs]⟩
    | some c =>
      cases hd : c.get? r.id with
      | none =>
        refine ⟨fun h => ?_, fun h => ?_⟩
        · simp [ruleFaults, hs, Catalog.lookup, hd] at h
        · obtain ⟨d, hd'⟩ := h.registered c rfl
          rw [hd] at hd'
          cases hd'
      | some d =>
        refine ⟨fun _ => ⟨⟨s, hs⟩, fun c' hc => ?_⟩, fun _ => by simp [ruleFaults, hs, Catalog.lookup, hd]⟩
        cases hc
        exact ⟨d, hd⟩

lemma faults_eq_nil_iff {c : Config} : c.faults catalog = [] ↔ c.IsAcceptable catalog := by
  have hrules : (∀ x ∈ c.rules.zipIdx, AcceptsRule catalog x.1) ↔ ∀ r ∈ c.rules, AcceptsRule catalog r := by
    constructor
    · intro h r hr
      obtain ⟨i, hi, rfl⟩ := getElem_of_mem hr
      exact h (c.rules[i], i) (mk_mem_zipIdx_iff_getElem?.2 (getElem?_eq_getElem hi))
    · intro h x hx
      exact h x.1 (mem_of_getElem? (mem_zipIdx_iff_getElem?.1 hx))
  have hdepth : (if c.analysis.callDepth < 0 then
      [Failure.plain ("analysis.call_depth must not be negative, got " ++ toString c.analysis.callDepth)] else []) = [] ↔
      0 ≤ c.analysis.callDepth := by
    split <;> simp_all
  have hformat : (if knownFormats.contains c.output.format then []
      else [Failure.plain ("output.format: unknown format " ++ Text.quoted c.output.format)]) = [] ↔
      c.output.format ∈ knownFormats := by
    split <;> simp_all
  simp only [faults, append_eq_nil_iff, flatMap_eq_nil_iff, unknownPlatform_eq_nil_iff,
    ruleFaults_eq_nil_iff, hrules, hdepth, hformat]
  constructor
  · rintro ⟨⟨⟨⟨⟨hplatform, hsupported⟩, hcallDepth⟩, hparams⟩, hrules⟩, hformat⟩
    exact ⟨hplatform, hsupported, hcallDepth, hparams, hrules, hformat⟩
  · intro h
    exact ⟨⟨⟨⟨⟨h.platform, h.supported⟩, h.callDepth⟩, h.params⟩, h.rules⟩, h.format⟩

lemma validate_eq_ok_iff {c : Config} : c.validate catalog = .ok () ↔ c.IsAcceptable catalog := by
  rw [← faults_eq_nil_iff]
  unfold validate
  split
  · next h => exact ⟨fun _ => h, fun _ => rfl⟩
  · next h => exact ⟨nofun, fun hnil => absurd hnil h⟩

end Config

lemma Failure.within_eq_ok_iff {α : Type} {activity : String} {x : Except Failure α} {a : α} :
    within activity x = .ok a ↔ x = .ok a := by
  cases x <;> simp [within]

lemma Failure.exists_of_bind_eq_ok {α β : Type} {x : Except Failure α} {f : α → Except Failure β} {b : β}
    (h : (x >>= f) = .ok b) : ∃ a, x = .ok a ∧ f a = .ok b := by
  cases x with
  | error e => cases h
  | ok a => exact ⟨a, rfl, h⟩

lemma Failure.foldlM_induction {α β : Type} {P : α → Prop} {f : α → β → Except Failure α} {xs : List β} {a b : α}
    (hf : ∀ a, ∀ x ∈ xs, ∀ b, P a → f a x = .ok b → P b) (h : xs.foldlM f a = .ok b) (ha : P a) : P b := by
  induction xs generalizing a with
  | nil => exact Except.ok.inj h ▸ ha
  | cons x xs ih =>
    rw [foldlM_cons] at h
    obtain ⟨c, hc, h⟩ := exists_of_bind_eq_ok h
    exact ih (fun a y hy => hf a y (mem_cons_of_mem x hy)) h (hf a x mem_cons_self c ha hc)

open Failure

/-! ### What is registered -/

variable {ds : List Descriptor} {r r' : Registry}

lemma Registry.isRegistered_addDescriptors (h : r.catalog.IsRegistered)
    (hr : r.addDescriptors ds = .ok r') : r'.catalog.IsRegistered := by
  rw [addDescriptors] at hr
  split at hr
  · next c u hall =>
    cases hr
    exact (h.registerAll hall).1
  · cases hr

lemma Analyzer.isRegistered_attachFixes (h : r.catalog.IsRegistered)
    (hr : Settings.attachFixes r = .ok r') : r'.catalog.IsRegistered := by
  obtain ⟨c, hc, hr⟩ := exists_of_bind_eq_ok hr
  cases hr
  exact foldlM_induction (P := Catalog.IsRegistered) (fun _ _ _ _ hP hfix => hP.attachFixer hfix) hc h

lemma Analyzer.isRegistered_register {x : Analyzer} (hx : x ∈ builtin) (h : r.catalog.IsRegistered)
    (hr : x.register r = .ok r') : r'.catalog.IsRegistered := by
  simp only [builtin, mem_cons, not_mem_nil, or_false] at hx
  rcases hx with rfl | rfl | rfl
  · exact Registry.isRegistered_addDescriptors h hr
  · exact Registry.isRegistered_addDescriptors (r := r.addParam _ _) h hr
  · obtain ⟨r₁, hr₁, hr⟩ := exists_of_bind_eq_ok hr
    -- parameters leave the catalog as it is
    have hparams : (Settings.thresholds.foldl (fun r x => r.addParam x.1 x.2) r).catalog = r.catalog := rfl
    rw [← hparams] at h
    exact isRegistered_attachFixes (Registry.isRegistered_addDescriptors h hr₁) hr

namespace Auditor

lemma isRegistered_registryOf {config : Config} {d : Disk} {r : Registry}
    (h : registryOf config Analyzer.builtin d = .ok r) : r.catalog.IsRegistered := by
  obtain ⟨r₁, hr₁, h⟩ := exists_of_bind_eq_ok h
  obtain ⟨r₂, hr₂, h⟩ := exists_of_bind_eq_ok h
  obtain ⟨-, -, h⟩ := exists_of_bind_eq_ok h
  cases h
  have hanalyzers : r₁.catalog.IsRegistered :=
    foldlM_induction (P := fun r : Registry => r.catalog.IsRegistered)
      (fun _ x hx _ hP hr => Analyzer.isRegistered_register hx hP (within_eq_ok_iff.1 hr)) hr₁ .empty
  refine foldlM_induction (P := fun r : Registry => r.catalog.IsRegistered) (fun _ path _ _ hP hr => ?_) hr₂ hanalyzers
  obtain ⟨ds, -, hr⟩ := exists_of_bind_eq_ok hr
  exact Registry.isRegistered_addDescriptors hP (within_eq_ok_iff.1 hr)

/-- What is known of an auditor that was set up with the built-in analyzers. -/
structure IsBuiltin (a : Auditor) : Prop where
  analyzers : a.analyzers = Analyzer.builtin
  registered : a.catalog.IsRegistered
  rules : a.rules = RuleSet.ofList a.config.rules

lemma isBuiltin_of_create {config : Config} {version : String} {cache : Option Cache} {d d' : Disk} {a : Auditor}
    {log : List LogRecord} (h : create config Analyzer.builtin version cache d = .ok (a, log, d')) : a.IsBuiltin := by
  obtain ⟨registry, hregistry, h⟩ := exists_of_bind_eq_ok h
  obtain rfl := congrArg Prod.fst (Except.ok.inj h)
  exact ⟨rfl, isRegistered_registryOf hregistry, rfl⟩

end Auditor

/-! ### What can be registered -/

lemma Catalog.exists_attachFixer {c : Catalog} {id : String} (h : ∃ d ∈ c.list, d.id = id) (fixer : Option Fixer) :
    ∃ c', c.attachFixer id fixer = .ok c' := by
  cases hget : c.get? id with
  | none =>
    obtain ⟨d, hd, hid⟩ := h
    exact absurd hid (get?_eq_none_iff.1 hget d hd)
  | some d =>
    rw [attachFixer, lookup, hget]
    exact ⟨_, rfl⟩

lemma Catalog.exists_registerAll {c : Catalog} (hvalid : ∀ d ∈ ds, d.validate = .ok ())
    (hnew : ∀ d ∈ ds, ∀ x ∈ c.list, x.id ≠ d.id) (hdistinct : ds.Pairwise fun a b => a.id ≠ b.id) :
    ∃ c', c.registerAll ds = (c', .ok ()) ∧ ∀ d, d ∈ c'.list ↔ d ∈ c.list ∨ d ∈ ds := by
  induction ds generalizing c with
  | nil => exact ⟨c, rfl, fun d => by simp⟩
  | cons x xs ih =>
    rw [forall_mem_cons] at hvalid hnew
    rw [pairwise_cons] at hdistinct
    have hregister := register_eq_ok_iff.2 ⟨hvalid.1, hnew.1, rfl⟩
    have hmem : ∀ d, d ∈ (Catalog.mk (insertEntry { descriptor := x } c.entries)).list ↔ d = x ∨ d ∈ c.list := by
      intro d
      simp only [list, mem_map, mem_insertEntry]
      constructor
      · rintro ⟨e, rfl | he, rfl⟩
        · exact .inl rfl
        · exact .inr ⟨e, he, rfl⟩
      · rintro (rfl | ⟨e, he, rfl⟩)
        · exact ⟨_, .inl rfl, rfl⟩
        · exact ⟨e, .inr he, rfl⟩
    obtain ⟨c', hc', hlist⟩ := ih (c := ⟨insertEntry { descriptor := x } c.entries⟩) hvalid.2 (fun d hd y hy => by
      rcases (hmem y).1 hy with rfl | hy
      · exact hdistinct.1 d hd
      · exact hnew.2 d hd y hy) hdistinct.2
    refine ⟨c', ?_, fun d => ?_⟩
    · rw [registerAll, hregister]
      exact hc'
    · rw [hlist, hmem, mem_cons]
      tauto

lemma Builtin.validate_eq_ok {d : Descriptor} (h : d ∈ descriptors) : d.validate = .ok () := by
  have hall : ∀ d ∈ descriptors, Descriptor.isValidId d.id ∧ d.title ≠ "" ∧ d.defaultSeverity ∈ Severity.known ∧
      (d.method = "" → d.typeName = "") := by decide +kernel
  obtain ⟨hid, htitle, hseverity, hmethod⟩ := hall d h
  exact Descriptor.validate_eq_ok_iff.2 ⟨hid, htitle, ⟨_, Severity.parse_label hseverity⟩, hmethod⟩

lemma Builtin.pairwise_descriptors : descriptors.Pairwise fun a b => a.id ≠ b.id := by decide +kernel

lemma Registry.exists_addDescriptors {r : Registry} (hvalid : ∀ d ∈ ds, d.validate = .ok ())
    (hnew : ∀ d ∈ ds, ∀ x ∈ r.catalog.list, x.id ≠ d.id) (hdistinct : ds.Pairwise fun a b => a.id ≠ b.id) :
    ∃ catalog, r.addDescriptors ds = .ok { r with catalog } ∧ ∀ d, d ∈ catalog.list ↔ d ∈ r.catalog.list ∨ d ∈ ds := by
  obtain ⟨c, hc, hlist⟩ := Catalog.exists_registerAll hvalid hnew hdistinct
  refine ⟨c, ?_, hlist⟩
  rw [addDescriptors, hc]

lemma Analyzer.exists_attachFixes {r : Registry} (h : ∀ c ∈ Settings.checks, ∃ d ∈ r.catalog.list, d.id = c.id) :
    ∃ catalog, Settings.attachFixes r = .ok { r with catalog } ∧ catalog.list = r.catalog.list := by
  have hall : ∀ (cs : List Settings.Check) (c : Catalog), (∀ x ∈ cs, ∃ d ∈ c.list, d.id = x.id) →
      ∃ c', cs.foldlM (fun c check => c.attachFixer check.id (some Setting.fix)) c = .ok c' ∧ c'.list = c.list := by
    intro cs
    induction cs with
    | nil => exact fun c _ => ⟨c, rfl, rfl⟩
    | cons x xs ih =>
      intro c hc
      rw [forall_mem_cons] at hc
      obtain ⟨c₁, hc₁⟩ := Catalog.exists_attachFixer hc.1 (some Setting.fix)
      have hlist := Catalog.list_attachFixer hc₁
      obtain ⟨c', hc', hlist'⟩ := ih c₁ (hlist.symm ▸ hc.2)
      refine ⟨c', ?_, hlist'.trans hlist⟩
      rw [foldlM_cons, hc₁]
      exact hc'
  obtain ⟨c, hc, hlist⟩ := hall _ _ h
  refine ⟨c, ?_, hlist⟩
  rw [Settings.attachFixes, hc]
  rfl

/-- Parameters with those of the built-in analyzers behind them. -/
def Analyzer.withThresholds (params : Params) : Params :=
  Settings.thresholds.foldl (fun p (name, value) => p.register name value) (params.register Assembly.sizeLimit 2048)

lemma Analyzer.exists_registerAll (params : Params) : ∃ catalog,
    registerAll builtin { params } = .ok { catalog, params := withThresholds params } ∧
      ∀ d, d ∈ catalog.list ↔ d ∈ Builtin.descriptors := by
  have hvalid : ∀ d ∈ Builtin.descriptors, d.validate = .ok () := fun _ => Builtin.validate_eq_ok
  have hdistinct := Builtin.pairwise_descriptors
  rw [Builtin.descriptors, forall_mem_append, forall_mem_append] at hvalid
  simp only [Builtin.descriptors, pairwise_append, mem_append] at hdistinct
  obtain ⟨⟨hcode, hassembly⟩, hsettings⟩ := hvalid
  obtain ⟨⟨dcode, dassembly, hapart⟩, dsettings, hapart'⟩ := hdistinct
  obtain ⟨c₁, h₁, hlist₁⟩ := Registry.exists_addDescriptors (r := { params }) hcode (fun _ _ => nofun) dcode
  obtain ⟨c₂, h₂, hlist₂⟩ := Registry.exists_addDescriptors (r := { catalog := c₁, params := params.register _ _ })
    hassembly (fun d hd x hx => hapart x (((hlist₁ x).1 hx).resolve_left not_mem_nil) d hd) dassembly
  have hmem₂ : ∀ d, d ∈ c₂.list ↔ d ∈ Builtin.codeDescriptors ∨ d ∈ Builtin.assemblyDescriptors := fun d => by
    rw [hlist₂, hlist₁]
    exact or_congr_left (or_iff_right not_mem_nil)
  obtain ⟨c₃, h₃, hlist₃⟩ := Registry.exists_addDescriptors (r := { catalog := c₂, params := withThresholds params })
    hsettings (fun d hd x hx => hapart' x ((hmem₂ x).1 hx) d hd) dsettings
  have hchecks : ∀ c ∈ Settings.checks, ∃ d ∈ Builtin.settingsDescriptors, d.id = c.id := by decide +kernel
  obtain ⟨c₄, h₄, hlist₄⟩ := exists_attachFixes (r := { catalog := c₃, params := withThresholds params }) fun c hc => by
    obtain ⟨d, hd, hid⟩ := hchecks c hc
    exact ⟨d, (hlist₃ d).2 (.inr hd), hid⟩
  refine ⟨c₄, ?_, fun d => ?_⟩
  · have hregister₁ : code.register { params } = .ok { catalog := c₁, params } := h₁
    have hregister₂ : assembly.register { catalog := c₁, params } = .ok { catalog := c₂, params := params.register _ _ } := h₂
    have hregister₃ : settings.register { catalog := c₂, params := params.register Assembly.sizeLimit 2048 } =
        .ok { catalog := c₄, params := withThresholds params } := by
      refine Eq.trans ?_ h₄
      have hadded : Registry.addDescriptors (Settings.thresholds.foldl (fun r (name, value) => r.addParam name value)
          { catalog := c₂, params := params.register Assembly.sizeLimit 2048 }) Builtin.settingsDescriptors =
          .ok { catalog := c₃, params := withThresholds params } := h₃
      show (Registry.addDescriptors _ _ >>= Settings.attachFixes) = _
      rw [hadded]
      rfl
    rw [registerAll, builtin, foldlM_cons, hregister₁]
    show (within _ (assembly.register _) >>= _) = _
    rw [hregister₂]
    show (within _ (settings.register _) >>= _) = _
    rw [hregister₃]
    rfl
  · rw [hlist₄, hlist₃, hmem₂, Builtin.descriptors, mem_append, mem_append]

lemma Auditor.exists_create {config : Config} (hfiles : config.descriptorFiles = [])
    (hconfig : ∀ c : Catalog, (∀ d, d ∈ c.list ↔ d ∈ Builtin.descriptors) → config.IsAcceptable (some c))
    (version : String) (cache : Cache) (d : Disk) :
    ∃ a, create config Analyzer.builtin version (some cache) d = .ok (a, [], d) ∧ a.config = config ∧ a.cache = cache ∧
      (∀ x, x ∈ a.catalog.list ↔ x ∈ Builtin.descriptors) ∧
      a.registry.params = Analyzer.withThresholds (Params.ofLayers (config.params.map (·.flat))) := by
  obtain ⟨c, hc, hlist⟩ := Analyzer.exists_registerAll (Params.ofLayers (config.params.map (·.flat)))
  have hvalid := Config.validate_eq_ok_iff.2 (hconfig c hlist)
  let registry : Registry := ⟨c, Analyzer.withThresholds (Params.ofLayers (config.params.map (·.flat)))⟩
  have hregistry : registryOf config Analyzer.builtin d = .ok registry := by
    simp only [registryOf, hc, hfiles, foldlM_nil, hvalid, within, bind, Except.bind, pure, Except.pure, registry]
  have hcreate : create config Analyzer.builtin version (some cache) d = .ok
      (⟨config, Analyzer.builtin, registry, RuleSet.ofList config.rules, cache, version⟩, [], d) := by
    simp only [create, hregistry, bind, Except.bind]
  exact ⟨_, hcreate, rfl, rfl, hlist, rfl⟩

lemma Auditor.params_of_create {config : Config} {version : String} {cache : Option Cache} {d d' : Disk} {a : Auditor}
    {log : List LogRecord} (h : create config Analyzer.builtin version cache d = .ok (a, log, d')) :
    a.registry.params = Analyzer.withThresholds (Params.ofLayers (config.params.map (·.flat))) := by
  obtain ⟨r, hr, h⟩ := exists_of_bind_eq_ok h
  obtain rfl := congrArg Prod.fst (Except.ok.inj h)
  obtain ⟨r₁, hr₁, hr⟩ := exists_of_bind_eq_ok hr
  obtain ⟨r₂, hr₂, hr⟩ := exists_of_bind_eq_ok hr
  obtain ⟨-, -, hr⟩ := exists_of_bind_eq_ok hr
  cases hr
  obtain ⟨c, hc, -⟩ := Analyzer.exists_registerAll (Params.ofLayers (config.params.map (·.flat)))
  obtain rfl := Except.ok.inj (hc.symm.trans hr₁)
  -- databases add descriptors only
  refine foldlM_induction (P := fun r : Registry => r.params = _) (fun _ path _ _ hP hfile => ?_) hr₂ rfl
  obtain ⟨ds, -, hds⟩ := exists_of_bind_eq_ok hfile
  have hadd := within_eq_ok_iff.1 hds
  rw [Registry.addDescriptors] at hadd
  split at hadd
  · exact Except.ok.inj hadd ▸ hP
  · cases hadd

end BytecodeAudit
