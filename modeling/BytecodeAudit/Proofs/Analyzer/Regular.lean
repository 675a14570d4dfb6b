import BytecodeAudit.Proofs.Analyzer.CacheTransparency
import BytecodeAudit.Proofs.Auditor.Schedule
import BytecodeAudit.Proofs.Report.Accepted

/-!
# What analyzers send

Every issue that an analyzer sends has a category, a severity as it is listed, a caller tree without
gaps that is no deeper than the limit, and a place of a file, a setting or an instruction
(`Issue.IsSent`). Issues for code may come from the cache, so there this is an invariant of the
entries: if every entry holds such findings, an audit sends such issues and leaves such entries
(`Code.isSent_audit`).
-/

namespace BytecodeAudit

open List Option

lemma AuditStep.flatMap_sent_map_log (log : List LogRecord) :
    (log.map AuditStep.log).flatMap AuditStep.sent = [] := by
  induction log with
  | nil => rfl
  | cons _ _ ih => exact ih

namespace CallNode

lemma mem_locationsBelow {l : Location} {cs : List CallNode} : l ∈ locationsBelow cs ↔ ∃ c ∈ cs, l ∈ c.locations := by
  induction cs with
  | nil => simp [locationsBelow]
  | cons c cs ih => simp [locationsBelow, ih]

/-- What is known of a tree of callers: none is missing, their places have a property, and it has at
most some number of frames above each other. -/
structure IsTree (Q : Location → Prop) (height : Nat) (c : CallNode) : Prop where
  complete : c.hasGap = false
  places : ∀ l ∈ c.locations, Q l
  nesting : c.toJson.nesting ≤ 2 * height

variable {Q : Location → Prop} {n : Nat}

lemma IsTree.mono {n' : Nat} {c : CallNode} (h : c.IsTree Q n) (hle : n ≤ n') : c.IsTree Q n' :=
  ⟨h.complete, h.places, h.nesting.trans (Nat.mul_le_mul_left 2 hle)⟩

lemma isTree_mk {name typeName methodName moduleName : String} {l : Option Location} {cs : List CallNode}
    {truncated : Bool} (hl : ∀ x, l = some x → Q x) (hcs : ∀ c ∈ cs, c.IsTree Q n) :
    (CallNode.mk name typeName methodName moduleName l cs truncated).IsTree Q (n + 1) where
  complete := anyGap_eq_false_iff.2 fun c hc => (hcs c hc).complete
  places := by
    rw [locations, forall_mem_append]
    refine ⟨fun x hx => hl x (mem_toList.1 hx), fun x hx => ?_⟩
    obtain ⟨c, hc, hx⟩ := mem_locationsBelow.1 hx
    exact (hcs c hc).places x hx
  nesting := by
    have hlocation : ∀ x, l = some x → x.toJson.nesting ≤ 2 * n + 1 := fun x _ =>
      x.nesting_toJson_le.trans (Nat.le_add_left 1 _)
    have hchildren : Json.nestingOfItems (childrenToJson cs) ≤ 2 * n := by
      rw [childrenToJson_eq_map]
      exact Json.nestingOfItems_le_iff.2 (forall_mem_map.2 fun c hc => (hcs c hc).nesting)
    rw [toJson]
    refine Json.nesting_compactFields_le ?_
    simpa [Json.nesting] using ⟨hlocation, fun _ => hchildren⟩

lemma IsTree.of_mem_children {c x : CallNode} (h : c.IsTree Q (n + 1)) (hx : x ∈ c.children) : x.IsTree Q n := by
  cases c with
  | gap => cases hx
  | mk name typeName methodName moduleName l cs truncated =>
    have hx : x ∈ cs := hx
    have hplaces := h.places
    rw [locations, forall_mem_append] at hplaces
    refine ⟨anyGap_eq_false_iff.1 h.complete x hx, fun y hy => hplaces.2 y (mem_locationsBelow.2 ⟨x, hx, hy⟩), ?_⟩
    have hchild : x.toJson ∈ childrenToJson cs := by
      rw [childrenToJson_eq_map]
      exact mem_map_of_mem hx
    have hbelow : x.toJson.nesting + 1 ≤ (Json.array (childrenToJson cs)).nesting :=
      Nat.succ_le_succ (Json.nesting_le_nestingOfItems hchild)
    have hfield : (Json.array (childrenToJson cs)).nesting + 1 ≤
        (CallNode.mk name typeName methodName moduleName l cs truncated).toJson.nesting := by
      rw [toJson]
      exact Nat.succ_le_succ (Json.nesting_le_nestingOfFields (f := ("children", _))
        (Json.mem_compactFields.2 (by simp [Json.nonempty?, ne_nil_of_mem hchild])))
    have hnesting := h.nesting
    omega

end CallNode

namespace CallGraph

variable {Q : Location → Prop}

lemma isTree_callerFrames {edges : List CallEdge} (hedges : ∀ e ∈ edges, ∀ l, e.location = some l → Q l) {n : Nat}
    {method : String} : ∀ c ∈ callerFrames edges n method, c.IsTree Q n := by
  induction n generalizing method with
  | zero => exact nofun
  | succ n ih =>
    intro c hc
    obtain ⟨e, he, rfl⟩ := mem_map.1 hc
    have hplace := hedges e (mem_of_mem_filter he)
    split
    · exact CallNode.isTree_mk hplace (nofun)
    · exact CallNode.isTree_mk hplace ih

lemma isTree_expand {g : CallGraph} (hedges : ∀ e ∈ g.edges.toList, ∀ l, e.location = some l → Q l) {c : CallNode}
    (hc : c.IsTree Q 1) (depth : Nat) : (g.expand depth c).IsTree Q (depth + 1) := by
  have hchildren : ∀ x ∈ c.children ++ callerFrames g.edges.toList depth c.name, x.IsTree Q depth := by
    rw [forall_mem_append]
    exact ⟨fun x hx => (hc.of_mem_children hx).mono (Nat.zero_le depth), isTree_callerFrames hedges⟩
  cases c with
  | gap => cases hc.complete
  | mk => exact CallNode.isTree_mk (fun x hx => hc.places x (mem_append_left _ (mem_toList.2 hx))) hchildren

end CallGraph

namespace Issue

/-- What is known of an issue that an analyzer sends: its places have a property, and its callers
are followed down to a depth. -/
structure IsSent (Q : Location → Prop) (depth : Nat) (i : Issue) : Prop where
  category_ne : i.category.name ≠ ""
  severity : Report.Schema.isSeverity i.severity.label = true
  callers : ∀ c, i.dependencies = some c → c.IsTree Q (depth + 1)
  place : ∀ l, i.location = some l → Q l

variable {Q : Location → Prop} {depth : Nat} {i : Issue}

lemma IsSent.isRegular (h : i.IsSent Q depth) : i.IsRegular :=
  ⟨h.category_ne, h.severity, fun c hc => (h.callers c hc).complete⟩

lemma IsSent.places (h : i.IsSent Q depth) : ∀ l ∈ i.locations, Q l := by
  rw [locations, forall_mem_append]
  refine ⟨?_, fun l hl => h.place l (mem_toList.1 hl)⟩
  cases hc : i.dependencies with
  | none => exact forall_mem_nil _
  | some c => exact (h.callers c hc).places

lemma IsSent.nesting (h : i.IsSent Q depth) : i.toJson.nesting ≤ 2 * depth + 3 :=
  nesting_toJson_le (fun c hc => (h.callers c hc).nesting) (by omega)

lemma isSent_of_mem (hcategory : i.category ∈ [Category.code, .assembly, .settings])
    (hseverity : i.severity ∈ [Severity.default, .info]) (hcallers : i.dependencies = none)
    (hplace : ∀ l, i.location = some l → Q l) : i.IsSent Q depth := by
  have hnames : ∀ c ∈ [Category.code, .assembly, .settings], c.name ≠ "" := by decide
  have hlabels : ∀ s ∈ [Severity.default, .info], Report.Schema.isSeverity s.label := by decide
  refine ⟨hnames _ hcategory, hlabels _ hseverity, fun c hc => ?_, hplace⟩
  rw [hcallers] at hc
  cases hc

end Issue

/-- What is known of findings: their issues stand at frames without callers, and their places have a
property. -/
structure Findings.IsRegular (Q : Location → Prop) (f : Findings) : Prop where
  issues : ∀ i ∈ f.issues, i.IsSent Q 0
  edges : ∀ e ∈ f.edges, ∀ l, e.location = some l → Q l

namespace Analyzer

namespace Code

def HasPlaces (Q : Location → Prop) (m : LoadedModule) : Prop :=
  ∀ x ∈ m.content.instructions, ∀ l, x.location = some l → Q l

lemma isRegular_scanned {Q : Location → Prop} (r : AuditRequest) {m : LoadedModule} (hm : HasPlaces Q m) :
    (scanned r m).IsRegular Q where
  issues i hi := by
    obtain ⟨matched, hmatched, rfl⟩ := mem_map.1 hi
    obtain ⟨x, hx, hmatch⟩ := mem_filterMap.1 hmatched
    obtain ⟨d, description, hissue⟩ := exists_issueAt_of_match? hmatch
    have hcategory : matched.issue.category = Category.code := by
      rw [hissue]
      exact Matcher.category_ofCatalog ..
    have hseverity : matched.issue.severity = Severity.default := by
      rw [hissue]
      rfl
    refine ⟨?_, ?_, fun c hc => ?_, fun l hl => ?_⟩
    · rw [hcategory]
      decide
    · rw [hseverity]
      decide
    · rw [dependencies_of_match? hmatch] at hc
      cases hc
      exact CallNode.isTree_mk (hm x hx) (nofun)
    · rw [hissue] at hl
      exact hm x hx l hl
  edges e he l hl := by
    have he : e ∈ (CallGraph.ofList (m.content.instructions.filterMap ScannedInstruction.edge?)).edges.toList := he
    rw [CallGraph.edges_ofList] at he
    obtain ⟨x, hx, hedge⟩ := mem_filterMap.1 (CallGraph.mem_of_mem_eraseDupsBy he)
    unfold ScannedInstruction.edge? at hedge
    split at hedge
    · obtain ⟨-, hedge⟩ := ite_none_right_eq_some.1 hedge
      cases hedge
      exact hm x hx l hl
    · cases hedge

lemma mem_edges_graphOf {fs : List Findings} {e : CallEdge} (h : e ∈ (graphOf fs).edges.toList) :
    ∃ f ∈ fs, e ∈ f.edges := by
  have hgraph : graphOf fs = CallGraph.ofList (fs.flatMap (·.edges)) := by
    rw [CallGraph.ofList, CallGraph.addAll, foldl_flatMap]
    rfl
  rw [hgraph, CallGraph.edges_ofList] at h
  exact mem_flatMap.1 (CallGraph.mem_of_mem_eraseDupsBy h)

lemma isSent_issuesOf {Q : Location → Prop} {fs : List Findings} (hfs : ∀ f ∈ fs, f.IsRegular Q) (depth : Int) :
    ∀ i ∈ issuesOf depth fs, i.IsSent Q (CallGraph.depthLimit depth) := by
  have hedges : ∀ e ∈ (graphOf fs).edges.toList, ∀ l, e.location = some l → Q l := by
    intro e he
    obtain ⟨f, hf, he⟩ := mem_edges_graphOf he
    exact (hfs f hf).edges e he
  intro i hi
  obtain ⟨x, hx, rfl⟩ := mem_map.1 hi
  obtain ⟨f, hf, hx⟩ := mem_flatMap.1 hx
  have hsent := (hfs f hf).issues x hx
  refine ⟨hsent.category_ne, hsent.severity, fun c hc => ?_, hsent.place⟩
  obtain ⟨x, hx, rfl⟩ := map_eq_some_iff.1 hc
  exact CallGraph.isTree_expand hedges (hsent.callers x hx) _

def HoldsRegular (Q : Location → Prop) (e : CacheEntry) : Prop :=
  ∀ f, Findings.decode? e.data = some f → f.IsRegular Q

/-- Whether all that a cache holds is regular. Nothing is asked of a cache that is not used. -/
def IsClean (Q : Location → Prop) (c : Cache) (d : Disk) : Prop :=
  c.isEnabled = true → d.IsTree ∧ c.AllEntries (HoldsRegular Q) d

/-- What is asked of an audit with a cache, so that what it stores can be read again: ids are plain
texts, and no text or list that is found is too long for a header. -/
structure CanKeep (r : AuditRequest) (d : Disk) : Prop where
  ids : ∀ x ∈ r.catalog.list, Text.IsText x.id
  sizes : r.cache.isEnabled = true → ∀ m ∈ loadable d r.modulePaths, (scanned r m).toPack.HasSizes

section

variable {Q : Location → Prop} {r : AuditRequest} {d₀ d : Disk}

lemma holdsRegular_of_decode? (hr : CanKeep r d₀) (henabled : r.cache.isEnabled) {m : LoadedModule}
    (hm : m ∈ loadable d₀ r.modulePaths) (hplaces : HasPlaces Q m) {hash : String} (hhash : Pack.IsShortText hash)
    {e : CacheEntry}
    (he : CacheEntry.decode? (CacheEntry.encode { hash, time := r.now, data := (scanned r m).encode }) = some e) :
    HoldsRegular Q e := by
  obtain ⟨-, bytes, -, hcontent⟩ := content_of_mem_loadable hm
  have htexts := LoadedModule.hasTexts_of_contentOf hcontent
  have hkeepable : (scanned r m).IsKeepable :=
    Findings.isKeepable_ofInstructions (Matcher.hasTexts_ofCatalog hr.ids ..) fun i hi => htexts.of_mem_instructions hi
  obtain ⟨e', he', -, hdata⟩ := CacheEntry.exists_decode?_encode (e := {
    hash, time := r.now, data := (scanned r m).encode }) hhash
  obtain rfl : e' = e := some.inj (he'.symm.trans he)
  intro f hf
  rw [Findings.eq_of_decode?_prefix hkeepable (hr.sizes henabled m hm) hdata hf]
  exact isRegular_scanned r hplaces

lemma isRegular_examine (hr : CanKeep r d₀) {m : LoadedModule} (hm : m ∈ loadable d₀ r.modulePaths)
    (hplaces : HasPlaces Q m) (hd : IsClean Q r.cache d) :
    (∀ f ∈ (examine (scanning r) r m d).findings, f.IsRegular Q) ∧
      IsClean Q r.cache (examine (scanning r) r m d).disk := by
  have hscan : ∀ hash d, ∀ f ∈ (scanAndKeep (scanning r) r hash m d).findings, f.IsRegular Q := by
    intro hash d f hf
    rw [findings_scanAndKeep] at hf
    exact some.inj hf ▸ isRegular_scanned r hplaces
  rw [examine]
  split
  · exact ⟨hscan none d, hd⟩
  · next henabled =>
    rw [Bool.not_eq_true', Bool.not_eq_false] at henabled
    obtain ⟨htree, hentries⟩ := hd henabled
    rw [moduleHash?_eq]
    cases (d.read m.path).toOption with
    | none => exact ⟨hscan none d, hd⟩
    | some bytes =>
      have hshort := isShortText_keptHash bytes (d.read (Module.symbolsPath m.path)).toOption (fingerprintBytes r)
      dsimp only [map_some]
      generalize keptHash bytes _ _ = hash at hshort ⊢
      have htouches := r.cache.touches_get htree r.now (cacheKey m.path) hash
      have hget := hentries.of_get htree r.now (cacheKey m.path) hash
      split
      · next f hf =>
        refine ⟨fun f' hf' => some.inj hf' ▸ ?_, fun _ => ⟨htouches.isTree, hget⟩⟩
        obtain ⟨data, hdata, hdecode⟩ := bind_eq_some_iff.1 hf
        obtain ⟨e, he, -, rfl⟩ := Cache.entry_of_get hdata
        exact hentries _ e he f hdecode
      · refine ⟨hscan _ _, fun _ => ?_⟩
        obtain hsame | ⟨hash', hhash, hset⟩ := scanAndKeep_cases r (some hash) m
          (r.cache.get r.now (cacheKey m.path) hash d).2
        · rw [hsame]
          exact ⟨htouches.isTree, hget⟩
        · cases hhash
          exact ⟨(Cache.touches_set htouches.isTree hset).isTree, hget.of_set htouches.isTree hset fun e he =>
            holdsRegular_of_decode? hr henabled hm hplaces hshort he⟩

lemma isRegular_survey (hr : CanKeep r d₀) {ms : List LoadedModule} (hms : ∀ m ∈ ms, m ∈ loadable d₀ r.modulePaths)
    (hplaces : ∀ m ∈ ms, HasPlaces Q m) (looks : Nat) (hd : IsClean Q r.cache d) :
    (∀ f ∈ (survey (scanning r) r looks ms d).findings, f.IsRegular Q) ∧
      IsClean Q r.cache (survey (scanning r) r looks ms d).disk := by
  induction ms generalizing looks d with
  | nil => exact ⟨forall_mem_nil _, hd⟩
  | cons m ms ih =>
    rw [forall_mem_cons] at hms hplaces
    rw [survey]
    split
    · exact ⟨forall_mem_nil _, hd⟩
    · obtain ⟨hone, hdisk⟩ := isRegular_examine hr hms.1 hplaces.1 hd
      obtain ⟨hrest, hend⟩ := ih hms.2 hplaces.2 (looks + 1) hdisk
      exact ⟨forall_mem_append.2 ⟨fun f hf => hone f (mem_toList.1 hf), hrest⟩, hend⟩

lemma isSent_audit (hQ : ∀ l : Location, l.IsNatural → Q l) (hr : CanKeep r d)
    (hplaces : ∀ m ∈ loadable d r.modulePaths, HasPlaces Q m) (hd : IsClean Q r.cache d) :
    (∀ i ∈ (audit r d).issues, i.IsSent Q (CallGraph.depthLimit r.callDepth)) ∧ IsClean Q r.cache (audit r d).disk := by
  rcases hopen : Scan.openUnlessCanceled d r.modulePaths (r.isCanceled 0) with f | opened
  · rw [audit, tryAudit, hopen]
    exact ⟨forall_mem_nil _, hd⟩
  · have hmodules : opened.modules = loadable d r.modulePaths := by
      rw [Scan.openUnlessCanceled] at hopen
      split at hopen
      · cases hopen
      · rw [← Except.ok.inj hopen, modules_openAll]
    obtain ⟨hfindings, hdisk⟩ := isRegular_survey hr (fun m hm => hmodules ▸ hm)
      (fun m hm => hplaces m (hmodules ▸ hm)) 1 hd
    constructor
    · rw [issues_audit hopen, forall_mem_append]
      refine ⟨fun i hi => ?_, isSent_issuesOf hfindings _⟩
      obtain ⟨x, -, rfl⟩ := List.mem_map.1 hi
      exact Issue.isSent_of_mem (.head _) (.tail _ (.head _)) rfl fun l hl =>
        Option.some.inj hl ▸ hQ _ ⟨Int.le_refl 0, Int.le_refl 0⟩
    · rw [audit, tryAudit, hopen]
      exact hdisk

end

end Code

/-! ### Modules and settings -/

section

variable {Q : Location → Prop} (hQ : ∀ l : Location, l.IsNatural → Q l) {depth : Nat}
include hQ

lemma Assembly.isSent_check {r : AuditRequest} {limit : Int} {m : LoadedModule} :
    ∀ x ∈ check r limit m, x.1.IsSent Q depth := by
  have hplace : ∀ l, some ({ path := m.path } : Location) = some l → Q l := fun l hl =>
    some.inj hl ▸ hQ _ ⟨Int.le_refl 0, Int.le_refl 0⟩
  have hfinding : ∀ id args, ∀ x ∈ finding r m id args, x.1.IsSent Q depth := by
    intro id args x hx
    unfold finding at hx
    split at hx
    · cases hx
    split at hx
    · cases hx
    · obtain rfl := mem_singleton.1 hx
      exact Issue.isSent_of_mem (.tail _ (.head _)) (.head _) rfl hplace
  have hskipped : ∀ x ∈ skippedMethods m, x.1.IsSent Q depth := by
    intro x hx
    unfold skippedMethods at hx
    dsimp only at hx
    split at hx
    · cases hx
    · obtain rfl := mem_singleton.1 hx
      exact Issue.isSent_of_mem (.tail _ (.head _)) (.tail _ (.head _)) rfl hplace
  have hite : ∀ {b : Bool} {xs ys : List Checked}, (∀ x ∈ xs, x.1.IsSent Q depth) → (∀ x ∈ ys, x.1.IsSent Q depth) →
      ∀ x ∈ (if b then xs else ys), x.1.IsSent Q depth := by
    intro b xs ys hxs hys
    cases b
    · exact hys
    · exact hxs
  rw [check, forall_mem_append, forall_mem_append]
  refine ⟨⟨hite (hfinding _ _) (nofun), hite hskipped (hfinding _ _)⟩, ?_⟩
  split
  · exact hfinding _ _
  · exact nofun

lemma Assembly.isSent_checkAll {r : AuditRequest} {limit : Int} {looks : Nat} {ms : List LoadedModule} :
    ∀ i ∈ (checkAll r limit looks ms).1.flatMap AuditStep.sent, i.IsSent Q depth := by
  induction ms generalizing looks with
  | nil => exact nofun
  | cons m ms ih =>
    rw [checkAll]
    split
    · exact nofun
    · dsimp only
      rw [flatMap_append, AuditStep.flatMap_sent_map_log, nil_append, flatMap_cons, flatMap_cons, forall_mem_append]
      refine ⟨fun i hi => ?_, ih⟩
      obtain ⟨x, hx, rfl⟩ := mem_map.1 hi
      exact isSent_check hQ x hx

lemma Assembly.isSent_audit (r : AuditRequest) (d : Disk) :
    (∀ i ∈ (audit r d).issues, i.IsSent Q depth) ∧ (audit r d).disk = d := by
  rw [AuditTrace.issues_eq, audit]
  split
  · exact ⟨forall_mem_nil _, rfl⟩
  split
  · exact ⟨forall_mem_nil _, rfl⟩
  · exact ⟨isSent_checkAll hQ, rfl⟩

namespace Settings

lemma isSent_run {c : Check} {r : AuditRequest} {settings : Setting} {line : Nat} {i : Issue}
    {warning : Option LogRecord} (h : c.run r settings line = .ok (some (i, warning))) : i.IsSent Q depth := by
  unfold Check.run at h
  split at h
  · split at h
    · cases h
    · cases hverdict : c.test.verdict r _ with
      | error f => rw [hverdict] at h; cases h
      | ok verdict =>
        rw [hverdict] at h
        cases verdict with
        | none => cases h
        | some v =>
          obtain ⟨rfl, -⟩ := Prod.mk.inj (some.inj (Except.ok.inj h))
          exact Issue.isSent_of_mem (.tail _ (.tail _ (.head _))) (.head _) rfl fun l hl =>
            some.inj hl ▸ hQ _ ⟨Int.natCast_nonneg line, Int.le_refl 0⟩
  · cases h

omit hQ in
lemma isSent_runChecks {run : Check → Except Failure (Option (Issue × Option LogRecord))}
    (hrun : ∀ c i warning, run c = .ok (some (i, warning)) → i.IsSent Q depth) {cs : List Check} {log : List LogRecord}
    {is : List Issue} (h : runChecks run cs = (log, .ok is)) : ∀ i ∈ is, i.IsSent Q depth := by
  induction cs generalizing log is with
  | nil =>
    obtain ⟨-, his⟩ := Prod.mk.inj h
    exact Except.ok.inj his ▸ nofun
  | cons c cs ih =>
    rw [runChecks] at h
    split at h
    · cases h
    · exact ih h
    · next i warning hc =>
      rcases hrest : runChecks run cs with ⟨log', f | is'⟩
      · rw [hrest] at h
        cases h
      · rw [hrest] at h
        obtain ⟨-, his⟩ := Prod.mk.inj h
        cases his
        exact forall_mem_cons.2 ⟨hrun c i warning hc, ih hrest⟩

lemma isSent_audit (r : AuditRequest) (d : Disk) :
    (∀ i ∈ (audit r d).issues, i.IsSent Q depth) ∧ (audit r d).disk = d := by
  rw [AuditTrace.issues_eq, audit]
  split
  · exact ⟨forall_mem_nil _, rfl⟩
  split
  · exact ⟨forall_mem_nil _, rfl⟩
  split
  · exact ⟨forall_mem_nil _, rfl⟩
  split
  · refine ⟨?_, rfl⟩
    rw [AuditStep.flatMap_sent_map_log]
    exact forall_mem_nil _
  · next log is hchecks =>
    refine ⟨?_, rfl⟩
    dsimp only
    rw [flatMap_append, AuditStep.flatMap_sent_map_log, nil_append, flatMap_singleton]
    exact isSent_runChecks (fun _ _ _ => isSent_run hQ) hchecks

end Settings

end

end Analyzer

end BytecodeAudit
