import BytecodeAudit.Proofs.Analyzer.Regular
import BytecodeAudit.Proofs.Auditor.Parallel
import BytecodeAudit.Proofs.Auditor.Reaudit
import BytecodeAudit.Proofs.Rules.Meaning

/-!
# Which reports of audits are accepted

The reports that an auditor makes with the built-in analyzers: one after another or side by side,
new or over an earlier report, cancelled or not, on files that change in between (`Audits`). Every
step keeps `Makes`: descriptors, parameters and rules are those of the auditor, and places those of
the modules that were looked at. Setting up is more lenient: it takes severities in any spelling
(`not_isAccepted_regrading`).
-/

namespace BytecodeAudit

open List

open Analyzer Report.Schema

/-! ### Runs -/

lemma AuditEnding.outcome_mem_known (ending : AuditEnding) : ending.outcome.1 ∈ Outcome.known := by
  cases ending with
  | success => exact .head _
  | failure cause =>
    rw [outcome]
    split
    · exact .tail _ (.tail _ (.head _))
    · exact .tail _ (.head _)
  | breakdown text => exact .tail _ (.head _)

/-- Whether an analyzer sends issues as they are known on any files, and leaves the files as they
are. -/
def Analyzer.IsQuiet (Q : Location → Prop) (depth : Nat) (x : Analyzer) : Prop :=
  ∀ r d, (∀ i ∈ (x.audit r d).issues, i.IsSent Q depth) ∧ (x.audit r d).disk = d

lemma Analyzer.isQuiet_of_mem {Q : Location → Prop} (hQ : ∀ l : Location, l.IsNatural → Q l) {depth : Nat}
    {x : Analyzer} (h : x ∈ [assembly, settings]) : x.IsQuiet Q depth := by
  simp only [mem_cons, not_mem_nil, or_false] at h
  rcases h with rfl | rfl
  · exact Assembly.isSent_audit hQ
  · exact Settings.isSent_audit hQ

/-- Whether what a worker has done and has still to do is known. -/
structure Worker.IsSound (Q : Location → Prop) (depth : Nat) (w : Worker) : Prop where
  steps : ∀ step ∈ w.trace.steps, ∀ i ∈ step.sent, i.IsSent Q depth
  working : ∀ start rest, w.progress = .working start rest →
    start.IsStandard ∧ ∀ step ∈ rest, ∀ i ∈ step.sent, i.IsSent Q depth

namespace Auditor

variable {Q : Location → Prop} {a : Auditor} {env : Environment} {t : AuditTarget} {d : Disk} {r : Report}

def depth (a : Auditor) : Nat := CallGraph.depthLimit a.config.analysis.callDepth

structure Makes (a : Auditor) (Q : Location → Prop) (r : Report) : Prop where
  timestamp : r.session.timestamp.IsStandard
  runs : ∀ x ∈ r.runs, x.IsRegular
  sent : ∀ i ∈ r.issues, i.IsSent Q a.depth
  catalog : r.catalog = a.catalog
  rules : r.rules = RuleSet.ofList a.config.rules
  layers : r.params.layers = a.registry.params.clone.layers

lemma Makes.isRegular (h : a.Makes Q r) (ha : a.IsBuiltin) : r.IsRegular where
  registered := h.catalog ▸ ha.registered
  timestamp := h.timestamp
  runs := h.runs
  issues i hi := (h.sent i hi).isRegular

lemma IsBuiltin.makes_newReport (h : a.IsBuiltin) (hclock : env.now.IsStandard) (t : AuditTarget) :
    a.Makes Q (a.newReport env t) where
  timestamp := hclock
  runs := nofun
  sent := nofun
  catalog := rfl
  rules := by
    rw [newReport, h.rules]
    exact RuleSet.ofList_rules _
  layers := rfl

lemma Makes.clear (h : a.Makes Q r) (c : Category) : a.Makes Q (r.clear c) where
  timestamp := h.timestamp
  runs x hx := by
    obtain ⟨y, hy, rfl⟩ := mem_map.1 (mem_of_mem_filter hx)
    obtain ⟨hstart, hfinish, houtcome⟩ := h.runs y hy
    exact ⟨hstart, hfinish, houtcome⟩
  sent i hi := h.sent i (mem_of_mem_filter hi)
  catalog := h.catalog
  rules := h.rules
  layers := h.layers

lemma Makes.clearFor (h : a.Makes Q r) (xs : List Analyzer) : a.Makes Q (clearFor xs r) := by
  rw [Auditor.clearFor]
  induction xs.flatMap (·.categories) generalizing r with
  | nil => exact h
  | cons c cs ih => exact ih (h.clear c)

lemma Makes.of_adds {s s' : AuditState} {sent : List Issue} {runs : List ModuleRun} {cancels : Bool}
    (h : a.Makes Q s.report) (hadds : AuditState.Adds sent runs cancels s s') (hsent : ∀ i ∈ sent, i.IsSent Q a.depth)
    (hruns : ∀ x ∈ runs, x.IsRegular) : a.Makes Q s'.report := by
  rw [hadds.report_eq]
  exact ⟨h.timestamp, forall_mem_append.2 ⟨h.runs, hruns⟩, forall_mem_append.2 ⟨h.sent, hsent⟩, h.catalog,
    h.rules, h.layers⟩

lemma Makes.opening (h : a.Makes Q r) (t : AuditTarget) (isCanceled : Bool) (d : Disk) :
    a.Makes Q (opening t r isCanceled d).report :=
  ⟨h.timestamp, h.runs, h.sent, h.catalog, h.rules, h.layers⟩

/-! ### One analyzer after another -/

def scannedFor (a : Auditor) (t : AuditTarget) (m : LoadedModule) : Findings :=
  (Findings.ofInstructions (Matcher.ofCatalog a.catalog t.platform t.runtimeVersion) m.content.instructions).1

/-- What is asked of an audit: the clock shows times that can be written, and with a cache nothing
that is found is too long to be kept. -/
structure CanAudit (a : Auditor) (env : Environment) (t : AuditTarget) (d : Disk) : Prop where
  clock : env.now.IsStandard
  sizes : a.cache.isEnabled = true → ∀ m ∈ Code.loadable d t.modulePaths, (a.scannedFor t m).toPack.HasSizes

lemma CanAudit.canKeep (h : a.CanAudit env t d) (ha : a.IsBuiltin) (s : AuditState) (looks : Nat → Bool) :
    Code.CanKeep { a.request env t s with isCanceled := looks } d where
  ids x hx := (Descriptor.isAscii_of_isValidId
    (Descriptor.isValidId_of_validate (ha.registered.areOrdered.validate_eq x hx))).isText
  sizes := h.sizes

def HavePlaces (Q : Location → Prop) (t : AuditTarget) (d : Disk) : Prop :=
  ∀ m ∈ Code.loadable d t.modulePaths, Code.HasPlaces Q m

variable (hQ : ∀ l : Location, l.IsNatural → Q l) (ha : a.IsBuiltin) (hcan : a.CanAudit env t d)
  (hplaces : HavePlaces Q t d) (hclean : Code.IsClean Q a.cache d)

include hQ ha hcan hplaces hclean in
lemma isSent_audit {x : Analyzer} (hx : x ∈ builtin) (s : AuditState) (looks : Nat → Bool) :
    let trace := x.audit { a.request env t s with isCanceled := looks } d
    (∀ i ∈ trace.issues, i.IsSent Q a.depth) ∧ Code.IsClean Q a.cache trace.disk := by
  intro trace
  rcases mem_cons.1 hx with rfl | hx
  · exact Code.isSent_audit hQ (hcan.canKeep ha s looks) hplaces hclean
  · obtain ⟨hissues, hdisk⟩ := isQuiet_of_mem hQ hx { a.request env t s with isCanceled := looks } d
    refine ⟨hissues, ?_⟩
    rw [hdisk]
    exact hclean

/-- What is known of an audit under way. -/
structure IsSound (a : Auditor) (Q : Location → Prop) (s : AuditState) : Prop where
  makes : a.Makes Q s.report
  clean : Code.IsClean Q a.cache s.disk

lemma IsSound.runAnalyzer {s : AuditState} (h : a.IsSound Q s) (hclock : env.now.IsStandard) {x : Analyzer}
    (htrace : let trace := a.traceOf env t s.report.params s.disk x
      (∀ i ∈ trace.issues, i.IsSent Q a.depth) ∧ Code.IsClean Q a.cache trace.disk) :
    a.IsSound Q (a.runAnalyzer env t s x) := by
  by_cases hcanceled : s.isCanceled = true
  · rw [Auditor.runAnalyzer, if_pos hcanceled]
    refine ⟨h.makes.of_adds (s.adds_close _) (forall_mem_nil _) ?_, h.clean⟩
    exact forall_mem_singleton.2 ⟨hclock, hclock, .tail _ (.tail _ (.head _))⟩
  · obtain ⟨hadds, hdisk⟩ := a.adds_runAnalyzer env t (Bool.eq_false_iff.2 hcanceled) x
    refine ⟨h.makes.of_adds hadds htrace.1 ?_, hdisk ▸ htrace.2⟩
    exact forall_mem_singleton.2 ⟨hclock, hclock, AuditEnding.outcome_mem_known _⟩

lemma IsSound.foldl_runAnalyzer {s : AuditState} (h : a.IsSound Q s) (hclock : env.now.IsStandard)
    {xs : List Analyzer} (hxs : ∀ x ∈ xs, x.IsQuiet Q a.depth) : a.IsSound Q (xs.foldl (a.runAnalyzer env t) s) := by
  induction xs generalizing s with
  | nil => exact h
  | cons x xs ih =>
    rw [forall_mem_cons] at hxs
    obtain ⟨hissues, hdisk⟩ := hxs.1 (a.request env t { report := { params := s.report.params }, disk := s.disk }) s.disk
    exact ih (h.runAnalyzer hclock ⟨hissues, hdisk.symm ▸ h.clean⟩) hxs.2

section

include hQ ha hcan hplaces hclean

/-- The code analyzer runs first, on the files that the audit meets; the others do not write. -/
lemma isSound_runSelected (h : a.Makes Q r) (isCanceled : Bool) :
    a.IsSound Q (a.runSelected env t r isCanceled d) := by
  have hstart : a.IsSound Q (opening t r isCanceled d) := ⟨h.opening t isCanceled d, hclean⟩
  have hrest : ∀ x ∈ [assembly, settings].filter (·.handles t.categories), x.IsQuiet Q a.depth := fun x hx =>
    isQuiet_of_mem hQ (mem_of_mem_filter hx)
  have hselected : a.runSelected env t r isCanceled d =
      (builtin.filter (·.handles t.categories)).foldl (a.runAnalyzer env t) (opening t r isCanceled d) := by
    rw [runSelected, selected, ha.analyzers]
  rw [hselected, builtin, filter_cons]
  split
  · refine IsSound.foldl_runAnalyzer (hstart.runAnalyzer hcan.clock ?_) hcan.clock hrest
    exact isSent_audit hQ ha hcan hplaces hclean mem_cons_self { report := { params := _ }, disk := d } fun _ => false
  · exact hstart.foldl_runAnalyzer hcan.clock hrest

lemma isSound_run {again : Option Report} (hagain : ∀ r, again = some r → a.Makes Q r) (isCanceled : Bool) :
    a.IsSound Q (a.run env t again isCanceled d).1 := by
  have hreport : a.Makes Q (again.getD (a.newReport env t)) := by
    cases again with
    | none => exact ha.makes_newReport hcan.clock t
    | some r => exact hagain r rfl
  rw [run]
  split
  · exact ⟨hreport, hclean⟩
  · refine isSound_runSelected hQ ha hcan hplaces hclean ?_ isCanceled
    split
    · exact hreport.clearFor _
    · exact hreport

end

/-! ### Analyzers side by side -/

lemma Makes.advance {s : AuditState} (h : a.Makes Q s.report) {w : Worker} (hw : w.IsSound Q a.depth) {now : Instant}
    (hnow : now.IsStandard) : (w.advance now s).1.IsSound Q a.depth ∧ a.Makes Q (w.advance now s).2.report := by
  have hdone : ({ w with progress := .done } : Worker).IsSound Q a.depth := ⟨hw.steps, nofun⟩
  unfold Worker.advance
  split
  · split
    · refine ⟨hdone, h.of_adds (s.adds_close _) (nofun) ?_⟩
      exact forall_mem_singleton.2 ⟨hnow, hnow, .tail _ (.tail _ (.head _))⟩
    · refine ⟨⟨hw.steps, ?_⟩, h⟩
      rintro start rest ⟨⟩
      exact ⟨hnow, hw.steps⟩
  · next start step rest hprogress =>
    obtain ⟨hstart, hrest⟩ := hw.working _ _ hprogress
    rw [forall_mem_cons] at hrest
    refine ⟨⟨hw.steps, ?_⟩, h.of_adds (s.adds_take step) hrest.1 (nofun)⟩
    rintro _ _ ⟨⟩
    exact ⟨hstart, hrest.2⟩
  · next start hprogress =>
    obtain ⟨hstart, -⟩ := hw.working _ _ hprogress
    have htold : a.Makes Q (w.trace.ending.record?.elim s s.tell).report := by
      cases w.trace.ending.record? <;> exact h
    refine ⟨hdone, htold.of_adds (AuditState.adds_close _ _) (nofun) ?_⟩
    exact forall_mem_singleton.2 ⟨hstart, hnow, AuditEnding.outcome_mem_known _⟩
  · exact ⟨hw, h⟩

/-- Whether the clock shows times that can be written whenever a schedule looks at it. -/
def IsTimed (schedule : List Move) : Prop := ∀ i now, .advance i now ∈ schedule → now.IsStandard

lemma Makes.run {p : ParallelAudit} (h : a.Makes Q p.state.report) (hp : ∀ w ∈ p.workers, w.IsSound Q a.depth)
    {schedule : List Move} (hschedule : IsTimed schedule) : a.Makes Q (p.run schedule).state.report := by
  rw [ParallelAudit.run]
  induction schedule generalizing p with
  | nil => exact h
  | cons move schedule ih =>
    have hrest : IsTimed schedule := fun i now hmem => hschedule i now (mem_cons_of_mem _ hmem)
    rw [foldl_cons]
    cases move with
    | cancel => exact ih (p := p.step .cancel) h hp hrest
    | advance i now =>
      rw [ParallelAudit.step]
      split
      · exact ih h hp hrest
      · next w hw =>
        obtain ⟨hworker, hreport⟩ := h.advance (hp w (mem_of_getElem? hw)) (hschedule i now mem_cons_self)
        refine ih hreport (fun w' hw' => ?_) hrest
        rcases mem_or_eq_of_mem_set hw' with hw' | rfl
        · exact hp w' hw'
        · exact hworker

/-- What the selected analyzers do when all of them are started on the same files, each with its own
looks at the cancellation. -/
def sideBySide (a : Auditor) (env : Environment) (t : AuditTarget) (looks : Analyzer → Nat → Bool) (s : AuditState) :
    List (Analyzer × AuditTrace) :=
  (a.selected t.categories).map fun x => (x, x.audit { a.request env t s with isCanceled := looks x } s.disk)

def started (a : Auditor) (env : Environment) (t : AuditTarget) (again : Option Report) : Report :=
  again.elim (a.newReport env t) (clearFor (a.selected t.categories))

lemma makes_started (ha : a.IsBuiltin) (hclock : env.now.IsStandard) {again : Option Report}
    (hagain : ∀ r, again = some r → a.Makes Q r) : a.Makes Q (a.started env t again) := by
  cases again with
  | none => exact ha.makes_newReport hclock t
  | some r => exact (hagain r rfl).clearFor _

section

include hQ ha hcan hplaces hclean

variable (looks : Analyzer → Nat → Bool)

lemma isSent_sideBySide {s : AuditState} (hs : s.disk = d)
    {p : Analyzer × AuditTrace} (hp : p ∈ a.sideBySide env t looks s) :
    (∀ i ∈ p.2.issues, i.IsSent Q a.depth) ∧ Code.IsClean Q a.cache p.2.disk := by
  obtain ⟨x, hx, rfl⟩ := mem_map.1 hp
  subst hs
  have hbuiltin : x ∈ builtin := ha.analyzers ▸ mem_of_mem_filter hx
  exact isSent_audit hQ ha hcan hplaces hclean hbuiltin s (looks x)

lemma makes_sideBySide {s : AuditState} (hs : s.disk = d)
    (h : a.Makes Q s.report) {schedule : List Move} (hschedule : IsTimed schedule) :
    a.Makes Q ((ParallelAudit.start s (a.sideBySide env t looks s)).run schedule).state.report := by
  refine Makes.run (p := ParallelAudit.start s (a.sideBySide env t looks s)) h (fun w hw => ?_) hschedule
  obtain ⟨p, hp, rfl⟩ := mem_map.1 hw
  obtain ⟨hissues, -⟩ := isSent_sideBySide hQ ha hcan hplaces hclean looks hs hp
  rw [AuditTrace.issues_eq] at hissues
  exact ⟨fun step hstep i hi => hissues i (mem_flatMap.2 ⟨step, hstep, hi⟩), nofun⟩

end

/-! ### Any number of audits -/

/-- The files and the reports that audits lead to, the last report first, and what the audits looked
at. A cache that is used is empty at the start, and nobody else writes entries to it; other files
may change in between. -/
inductive Audits (a : Auditor) : Disk → List Report → List (AuditTarget × Disk) → Prop
  | start {d : Disk} (hd : a.cache.isEnabled = true → d.IsTree ∧ ∀ key, a.cache.entry? key d = none) : Audits a d [] []
  | change {d d' : Disk} {rs : List Report} {visits : List (AuditTarget × Disk)} (h : Audits a d rs visits)
      (hd' : a.cache.isEnabled = true → d'.IsTree ∧
        ∀ key e, a.cache.entry? key d' = some e → ∃ key', a.cache.entry? key' d = some e) : Audits a d' rs visits
  | run {d : Disk} {rs : List Report} {visits : List (AuditTarget × Disk)} {env : Environment} {t : AuditTarget}
      {again : Option Report} (h : Audits a d rs visits) (hcan : a.CanAudit env t d)
      (hagain : ∀ r, again = some r → r ∈ rs) (isCanceled : Bool) :
      Audits a (a.run env t again isCanceled d).1.disk ((a.run env t again isCanceled d).1.report :: rs)
        ((t, d) :: visits)
  /-- The files are those that one of the analyzers leaves: at most one of them writes. -/
  | sideBySide {d d' : Disk} {rs : List Report} {visits : List (AuditTarget × Disk)} {env : Environment}
      {t : AuditTarget} {again : Option Report} {isCanceled : Bool} {looks : Analyzer → Nat → Bool}
      {schedule : List Move} {s : AuditState} (h : Audits a d rs visits) (hcan : a.CanAudit env t d)
      (hagain : ∀ r, again = some r → r ∈ rs) (hschedule : IsTimed schedule)
      (hs : s = opening t (a.started env t again) isCanceled d)
      (hd' : d' = d ∨ ∃ p ∈ a.sideBySide env t looks s, d' = p.2.disk) :
      Audits a d' (((ParallelAudit.start s (a.sideBySide env t looks s)).run schedule).state.report :: rs)
        ((t, d) :: visits)

include hQ ha in
lemma Audits.makes {rs : List Report}
    {visits : List (AuditTarget × Disk)} (h : a.Audits d rs visits) (hplaces : ∀ v ∈ visits, HavePlaces Q v.1 v.2) :
    Code.IsClean Q a.cache d ∧ ∀ r ∈ rs, a.Makes Q r := by
  induction h with
  | start hd =>
    refine ⟨fun henabled => ⟨(hd henabled).1, fun key e he => ?_⟩, nofun⟩
    rw [(hd henabled).2 key] at he
    cases he
  | change _ hd' ih =>
    refine ⟨fun henabled => ⟨(hd' henabled).1, fun key e he => ?_⟩, (ih hplaces).2⟩
    obtain ⟨key', he'⟩ := (hd' henabled).2 key e he
    exact ((ih hplaces).1 henabled).2 key' e he'
  | run _ hcan hagain isCanceled ih =>
    rw [forall_mem_cons] at hplaces
    obtain ⟨hclean, hmakes⟩ := ih hplaces.2
    obtain ⟨hreport, hdisk⟩ := isSound_run hQ ha hcan hplaces.1 hclean (fun r hr => hmakes r (hagain r hr)) isCanceled
    exact ⟨hdisk, forall_mem_cons.2 ⟨hreport, hmakes⟩⟩
  | sideBySide _ hcan hagain hschedule hs hd' ih =>
    rw [forall_mem_cons] at hplaces
    obtain ⟨hclean, hmakes⟩ := ih hplaces.2
    have hdisk := congrArg AuditState.disk hs
    constructor
    · rcases hd' with rfl | ⟨p, hp, rfl⟩
      · exact hclean
      · exact (isSent_sideBySide hQ ha hcan hplaces.1 hclean _ hdisk hp).2
    · refine forall_mem_cons.2 ⟨makes_sideBySide hQ ha hcan hplaces.1 hclean _ hdisk ?_ hschedule, hmakes⟩
      rw [hs]
      exact (makes_started ha hcan.clock fun r hr => hmakes r (hagain r hr)).opening _ _ _

/-! ### Acceptance -/

/-- Whether what an auditor was set up with can be part of a document: severities are spelled as
they are listed, and every parameter has a name and a value of 64 bits. -/
structure IsStorable (a : Auditor) : Prop where
  rules : ∀ x ∈ (RuleSet.ofList a.config.rules).rules, isSeverity x.severity.label = true
  descriptors : ∀ x ∈ a.catalog.list, isSeverity x.defaultSeverity.label = true
  params : ∀ l ∈ a.registry.params.clone.layers, ∀ v ∈ l.values, v.1 ≠ "" ∧ Pack.IsLong v.2

lemma Makes.isAdmissible_iff (h : a.Makes Q r) : r.IsAdmissible ↔
    a.IsStorable ∧ (∀ i ∈ r.issues, ∀ l ∈ i.locations, l.IsNatural ∧ l.IsLong) ∧
      r.document.nesting ≤ Json.maxDepth := by
  constructor
  · intro ha
    refine ⟨⟨?_, ?_, ?_⟩, ha.locations, ha.nesting⟩
    · exact h.rules ▸ ha.rules
    · exact h.catalog ▸ ha.descriptors
    · exact h.layers ▸ ha.params
  · rintro ⟨ha, hlocations, hnesting⟩
    refine ⟨?_, ?_, ?_, hlocations, hnesting⟩
    · exact h.rules.symm ▸ ha.rules
    · exact h.catalog.symm ▸ ha.descriptors
    · exact h.layers.symm ▸ ha.params

lemma Makes.nesting_le (h : a.Makes Q r) : r.document.nesting ≤ 2 * a.depth + 6 :=
  Report.nesting_document_le (fun i hi => (h.sent i hi).nesting) (Nat.le_add_left 3 _)

/-- A report of an audit is accepted exactly if what the auditor was set up with can be stored, the
places of its issues are counted from zero with numbers of 64 bits, and it does not nest too deep.
If the places of all modules are counted from zero, and callers are followed through fewer than 4998
calls, the former decides. -/
theorem isAccepted_iff_isStorable {config : Config} {version : String} {cache : Option Cache} {d₀ d₁ : Disk}
    {log : List LogRecord} (hcreate : create config builtin version cache d₀ = .ok (a, log, d₁)) {rs : List Report}
    {visits : List (AuditTarget × Disk)} (h : a.Audits d rs visits) (hr : r ∈ rs) :
    (r.IsAccepted ↔ a.IsStorable ∧ (∀ i ∈ r.issues, ∀ l ∈ i.locations, l.IsNatural ∧ l.IsLong) ∧
      r.document.nesting ≤ Json.maxDepth) ∧
    ((∀ v ∈ visits, HavePlaces Location.IsNatural v.1 v.2) → a.depth < 4998 →
      (r.IsAccepted ↔ a.IsStorable ∧ ∀ i ∈ r.issues, ∀ l ∈ i.locations, l.IsLong)) := by
  have ha := isBuiltin_of_create hcreate
  have hmakes := (h.makes (Q := fun _ => True) (fun _ _ => trivial) ha fun _ _ _ _ _ _ _ _ => trivial).2 r hr
  have haccepted := (Report.isAccepted_iff_isAdmissible (hmakes.isRegular ha)).trans hmakes.isAdmissible_iff
  refine ⟨haccepted, fun hplaces hdepth => haccepted.trans (and_congr_right fun _ => ?_)⟩
  have hnatural := (h.makes (fun _ hl => hl) ha hplaces).2 r hr
  have hnesting : r.document.nesting ≤ Json.maxDepth := by
    have hle := hmakes.nesting_le
    rw [Json.maxDepth]
    omega
  constructor
  · exact fun hlocations i hi l hl => (hlocations.1 i hi l hl).2
  · exact fun hlong => ⟨fun i hi l hl => ⟨(hnatural.sent i hi).places l hl, hlong i hi l hl⟩, hnesting⟩

/-! ### A rule that is spelled in another case -/

/-- A configuration with one rule, for a built-in descriptor. -/
def regrading (label : String) : Config := { rules := [⟨"API0001", "", ⟨label⟩⟩] }

/-- An audit of the code of a file that is not there. -/
def goneTarget : AuditTarget := { modulePaths := ["gone.bcm"], categories := [Category.code] }

/-- What an audit finds there. -/
def goneIssue : Issue := Code.unloadable "gone.bcm" (.load "gone.bcm" (.io ⟨"open", "gone.bcm", .noSuchFile⟩))

lemma exists_create_regrading {label : String} {s : Severity} (h : Severity.parse label = .ok s) :
    ∃ a, create (regrading label) builtin "dev" (some .disabled) {} = .ok (a, [], {}) ∧
      a.config = regrading label ∧ a.cache = .disabled ∧ (∀ x, x ∈ a.catalog.list ↔ x ∈ Builtin.descriptors) ∧
      a.registry.params = withThresholds (Params.ofLayers []) := by
  refine exists_create rfl (fun c hc => Config.isAcceptable_of_rules (fun x hx => ?_) (forall_mem_nil _)) "dev"
    .disabled {}
  obtain rfl := mem_singleton.1 hx
  refine ⟨⟨s, h⟩, fun c' hc' => ?_⟩
  obtain rfl := Option.some.inj hc'
  obtain ⟨d, hd, hid⟩ : ∃ d ∈ Builtin.descriptors, d.id = "API0001" := by decide +kernel
  refine Option.ne_none_iff_exists'.1 fun hnone => ?_
  exact Catalog.get?_eq_none_iff.1 hnone d ((hc d).2 hd) hid

lemma canAudit_of_disabled (h : a.cache = .disabled) (t : AuditTarget) (d : Disk) : a.CanAudit {} t d where
  clock := ⟨by decide +kernel, by decide⟩
  sizes henabled := by
    rw [h] at henabled
    cases henabled

lemma isClean_of_disabled (h : a.cache = .disabled) (d : Disk) : Code.IsClean Q a.cache d := by
  intro henabled
  rw [h] at henabled
  cases henabled

lemma loadable_gone : Code.loadable {} ["gone.bcm"] = [] := rfl

lemma issues_run_goneTarget (ha : a.IsBuiltin) :
    (a.run {} goneTarget none false {}).1.report.issues = [goneIssue] := by
  let report := a.newReport {} goneTarget
  have hfailing : Code.failing {} ["gone.bcm"] =
      [("gone.bcm", .load "gone.bcm" (.io ⟨"open", "gone.bcm", .noSuchFile⟩))] := rfl
  have hissues : ∀ params, (a.traceOf {} goneTarget params {} code).issues = [goneIssue] := by
    intro params
    let request := a.request {} goneTarget { report := { params }, disk := {} }
    have hopen : Scan.openUnlessCanceled {} request.modulePaths (request.isCanceled 0) =
        .ok (Scan.openAll {} ["gone.bcm"]) := rfl
    refine (Code.issues_audit hopen).trans ?_
    rw [Code.modules_openAll, Code.failures_openAll, loadable_gone, hfailing, mergeSort_singleton]
    rfl
  have hsupports : a.supports goneTarget.platform := Bool.or_eq_true_iff.2 (.inl rfl)
  have hselected : a.selected goneTarget.categories = [code] := by
    rw [selected, ha.analyzers]
    rfl
  have hrun : (a.run {} goneTarget none false {}).1 = a.runAnalyzer {} goneTarget (opening goneTarget report false {}) code := by
    rw [run, if_neg (by rw [hsupports]; decide)]
    show a.runSelected {} goneTarget report false {} = _
    rw [runSelected, hselected]
    rfl
  rw [hrun, (a.adds_runAnalyzer {} goneTarget rfl code).1.report_eq]
  exact hissues _

/-- A rule that is accepted, in a spelling that the report document does not know. The report of an
audit is written, and the document is refused. -/
theorem not_isAccepted_regrading : Severity.parse "Hidden" = .ok .hidden ∧
    ∃ a, create (regrading "Hidden") builtin "dev" (some .disabled) {} = .ok (a, [], {}) ∧
      ¬ (a.run {} goneTarget none false {}).1.report.IsAccepted := by
  refine ⟨Report.parse_capital_hidden, ?_⟩
  obtain ⟨a, hcreate, hconfig, hcache, -, -⟩ := exists_create_regrading Report.parse_capital_hidden
  refine ⟨a, hcreate, fun haccepted => ?_⟩
  have hnone : ∀ r, none = some r → a.Makes (fun _ => True) r := nofun
  obtain ⟨hmakes, -⟩ := isSound_run (fun _ _ => trivial) (isBuiltin_of_create hcreate)
    (canAudit_of_disabled hcache goneTarget {}) (fun _ _ _ _ _ _ => trivial) (isClean_of_disabled hcache {}) hnone false
  have hrules := (Report.isAdmissible_of_isAccepted haccepted).rules
  rw [hmakes.rules, hconfig] at hrules
  exact absurd (hrules ⟨"API0001", "", ⟨"Hidden"⟩⟩ (by decide)) (by decide)

/-- In the spelling that it is listed in, the same severity is accepted. -/
theorem isAccepted_regrading : ∃ a, create (regrading "hidden") builtin "dev" (some .disabled) {} = .ok (a, [], {}) ∧
    (a.run {} goneTarget none false {}).1.report.issues ≠ [] ∧ a.IsStorable ∧
    (a.run {} goneTarget none false {}).1.report.IsAccepted := by
  obtain ⟨a, hcreate, hconfig, hcache, hcatalog, hparams⟩ :=
    exists_create_regrading (Severity.parse_label (s := .hidden) (by decide))
  have hissues := issues_run_goneTarget (isBuiltin_of_create hcreate)
  have hstorable : a.IsStorable := by
    refine ⟨?_, fun x hx => ?_, ?_⟩
    · rw [hconfig]
      decide
    · have hlabels : ∀ x ∈ Builtin.descriptors, isSeverity x.defaultSeverity.label = true := by decide +kernel
      exact hlabels x ((hcatalog x).1 hx)
    · have hoverrides : (withThresholds (Params.ofLayers [])).overrides = [] := by decide +kernel
      have hnormal : (withThresholds (Params.ofLayers [])).IsNormal := by
        refine ⟨by unfold ParamValues.IsAscending; decide +kernel, ?_, ?_, ?_, ?_⟩ <;> rw [hoverrides]
        · exact List.forall_mem_nil _
        · exact List.nodup_nil
        · exact List.forall_mem_nil _
        · exact List.forall_mem_nil _
      rw [hparams, Params.clone, Params.ofLayers_layers hnormal]
      decide +kernel
  have hagain : ∀ r : Report, none = some r → r ∈ [] := nofun
  have hhistory : a.Audits _ _ _ := .run (.start fun henabled => by rw [hcache] at henabled; cases henabled)
    (canAudit_of_disabled hcache goneTarget {}) hagain false
  refine ⟨a, hcreate, by simp [hissues], hstorable, ?_⟩
  obtain ⟨-, hplain⟩ := isAccepted_iff_isStorable hcreate hhistory List.mem_cons_self
  refine (hplain ?_ ?_).2 ⟨hstorable, ?_⟩
  · rw [List.forall_mem_singleton, HavePlaces, goneTarget, loadable_gone]
    exact List.forall_mem_nil _
  · rw [depth, hconfig]
    decide
  · rw [hissues, List.forall_mem_singleton]
    exact List.forall_mem_singleton.2 ⟨by decide, by decide⟩

end Auditor

end BytecodeAudit
