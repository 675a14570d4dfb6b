import BytecodeAudit.Analyzer
import BytecodeAudit.Proofs.CallGraph.Chains
import BytecodeAudit.Proofs.Matcher.Search
import BytecodeAudit.Proofs.Scan.SymbolFiles

/-!
# What a code audit sends

A code audit sends one informational issue for each module that cannot be loaded, and then one issue
for each instruction that the matcher accepts, with the callers of its method. `issues_audit` brings
it down to the failures and findings of modules; `survey_eq` says which modules are looked at before
a cancellation, and what is found in them; the hierarchies are built from the calls of all modules
together (`edges_graphOf`).
-/

namespace BytecodeAudit.Analyzer.Code

open List

/-! ### What is sent -/

def sentIn (steps : List AuditStep) : List (List Issue) :=
  steps.filterMap fun
    | .send batch => some batch
    | _ => none

lemma sentIn_append (steps steps' : List AuditStep) :
    sentIn (steps ++ steps') = sentIn steps ++ sentIn steps' := filterMap_append

lemma sentIn_map_log (log : List LogRecord) : sentIn (log.map .log) = [] := by
  rw [sentIn, filterMap_map, filterMap_eq_nil_iff]
  exact fun _ _ => rfl

variable (r : AuditRequest)

lemma sentIn_survey (scan : Scanning) (looks : Nat) (ms : List LoadedModule) (d : Disk) :
    sentIn (survey scan r looks ms d).steps = [] := by
  induction ms generalizing looks d with
  | nil => rfl
  | cons m ms ih =>
    rw [survey]
    split
    · rfl
    · rw [sentIn_append, sentIn_map_log, nil_append]
      exact ih (looks + 1) _

lemma flatten_sentIn_skip (failures : List (String × Failure)) :
    (sentIn (failures.flatMap fun (path, f) => skip path f)).flatten =
      failures.map fun (path, f) => unloadable path f := by
  induction failures with
  | nil => rfl
  | cons f failures ih =>
    rw [flatMap_cons, sentIn_append, flatten_append, ih]
    rfl

lemma issues_audit {r : AuditRequest} {d : Disk} {opened : Scan.Opened}
    (h : Scan.openUnlessCanceled d r.modulePaths (r.isCanceled 0) = .ok opened) :
    (audit r d).issues = (opened.failures.map fun (path, f) => unloadable path f) ++
      issuesOf r.callDepth (survey (scanning r) r 1 opened.modules d).findings := by
  have hannounced : sentIn (.announce opened.modules.length :: (survey (scanning r) r 1 opened.modules d).steps) = [] :=
    sentIn_survey r _ 1 opened.modules d
  have hsent : (audit r d).issues = (sentIn (audit r d).steps).flatten := rfl
  rw [hsent, audit, tryAudit, h]
  simp only [sentIn_append, flatten_append, flatten_sentIn_skip, hannounced, append_nil]
  exact congrArg _ (append_nil _)

/-! ### Which modules are looked at -/

/-- Whether the first look that finds the audit cancelled is that before module `k`; with `k`
modules in all, no look does. -/
structure IsCutAt (r : AuditRequest) (looks count k : Nat) : Prop where
  le : k ≤ count
  before : ∀ i < k, r.isCanceled (looks + i) = false
  at_cut : k < count → r.isCanceled (looks + k) = true

def scanned (r : AuditRequest) (m : LoadedModule) : Findings :=
  (Findings.ofInstructions (matcher r) m.content.instructions).1

lemma findings_scanAndKeep (hash : Option String) (m : LoadedModule) (d : Disk) :
    (scanAndKeep (scanning r) r hash m d).findings = some (scanned r m) := by
  rw [scanAndKeep, scanning, scanned]
  obtain ⟨findings, log⟩ := Findings.ofInstructions (matcher r) m.content.instructions
  dsimp only
  split <;> rfl

lemma scanAndKeep_cases (hash : Option String) (m : LoadedModule) (d : Disk) :
    (scanAndKeep (scanning r) r hash m d).disk = d ∨ ∃ hash', hash = some hash' ∧
      r.cache.set r.now (cacheKey m.path) hash' (scanned r m).encode d =
        .ok (scanAndKeep (scanning r) r hash m d).disk := by
  cases hash with
  | none => exact .inl rfl
  | some hash =>
    rw [scanAndKeep, scanning, scanned]
    dsimp only [Option.map_some]
    rcases hset : r.cache.set r.now (cacheKey m.path) hash
      (Findings.ofInstructions (matcher r) m.content.instructions).1.encode d with f | d'
    · exact .inl rfl
    · exact .inr ⟨hash, rfl, hset⟩

lemma examine_of_disabled {r : AuditRequest} (h : r.cache.isEnabled = false) (m : LoadedModule) (d : Disk) :
    (examine (scanning r) r m d).findings = some (scanned r m) := by
  rw [examine, if_pos (by rw [h]; rfl), findings_scanAndKeep]

/-- A survey finds what examining finds in the modules before the cut. The invariant says what these
must have left of the disk. -/
lemma survey_eq {r : AuditRequest} {found : LoadedModule → Findings} (Inv : Disk → Prop) (ms : List LoadedModule)
    {scan : Scanning}
    (hfound : ∀ m ∈ ms, ∀ d, Inv d → (examine scan r m d).findings = some (found m) ∧ Inv (examine scan r m d).disk)
    (looks : Nat) {d : Disk} (hd : Inv d) :
    ∃ k, IsCutAt r looks ms.length k ∧ (survey scan r looks ms d).findings = (ms.take k).map found ∧
      (survey scan r looks ms d).isCut = decide (k < ms.length) ∧ Inv (survey scan r looks ms d).disk := by
  induction ms generalizing looks d with
  | nil => exact ⟨0, ⟨Nat.le_refl 0, nofun, nofun⟩, rfl, rfl, hd⟩
  | cons m ms ih =>
    rw [survey]
    split
    · rename_i hcanceled
      exact ⟨0, ⟨Nat.zero_le _, nofun, fun _ => hcanceled⟩, rfl, (decide_eq_true (Nat.succ_pos _)).symm, hd⟩
    · rename_i hcanceled
      obtain ⟨hone, hdisk⟩ := hfound m mem_cons_self d hd
      obtain ⟨k, hcut, hfindings, hisCut, hrest⟩ :=
        ih (fun m' hm' => hfound m' (mem_cons_of_mem m hm')) (looks + 1) hdisk
      -- the look before the first module was this one, so the looks of the others are numbered from the next
      refine ⟨k + 1, ⟨Nat.succ_le_succ hcut.le, fun i hi => ?_, fun hlt => ?_⟩, ?_, ?_, hrest⟩
      · cases i with
        | zero => exact Bool.eq_false_iff.2 hcanceled
        | succ i => exact Nat.add_right_comm looks 1 i ▸ hcut.before i (Nat.lt_of_succ_lt_succ hi)
      · exact Nat.add_right_comm looks 1 k ▸ hcut.at_cut (Nat.lt_of_succ_lt_succ hlt)
      · rw [take_succ_cons, map_cons, ← hfindings]
        exact congrArg (fun one => one.toList ++ _) hone
      · exact hisCut.trans (decide_eq_decide.2 Nat.succ_lt_succ_iff.symm)

/-! ### Findings of several modules -/

/-- The instructions of interest of some modules, in the order of the scan. -/
def instructionsOf (ms : List LoadedModule) : List ScannedInstruction := ms.flatMap (·.content.instructions)

/-- The calls of some modules, each as it is first seen. -/
def callsOf (ms : List LoadedModule) : List CallEdge :=
  ((instructionsOf ms).filterMap ScannedInstruction.edge?).eraseDupsBy CallEdge.sameCall

lemma edges_graphOf (ms : List LoadedModule) : (graphOf (ms.map (scanned r))).edges.toList = callsOf ms := by
  have hgraph : graphOf (ms.map (scanned r)) =
      ((ms.map fun m => m.content.instructions.filterMap ScannedInstruction.edge?).map
        fun es => (CallGraph.ofList es).edges.toList).foldl CallGraph.addAll CallGraph.empty := by
    rw [graphOf, foldl_map, map_map, foldl_map]
    rfl
  rw [hgraph, CallGraph.edges_foldl_addAll, callsOf, instructionsOf, filterMap_flatMap, flatMap]

/-- Whether an issue is what an audit of modules reports of an instruction: the issue of the
matcher, at the frame of its method, with the callers over the calls of all modules. -/
def Reports (r : AuditRequest) (ms : List LoadedModule) (i : ScannedInstruction) (issue : Issue) : Prop :=
  ∃ matched tree, (matcher r).match? i = some matched ∧
    issue = { matched.issue with dependencies := some tree } ∧
    tree = i.callNode.withChildren tree.children ∧
    CallGraph.IsCallerTree (callsOf ms) (CallGraph.depthLimit r.callDepth) tree

lemma exists_issueAt_of_match? {m : Matcher} {i : ScannedInstruction} {matched : MatchedIssue}
    (h : m.match? i = some matched) : ∃ d description, matched.issue = m.issueAt i d description := by
  obtain ⟨d, -, ⟨used, rfl⟩ | ⟨callee, -, rfl⟩⟩ :=
    (Matcher.alike_refl (fun _ => ⟨rfl, trivial⟩) m : Matcher.Alike (fun d d' => d = d' ∧ True) m m).match?_cases h
  · exact ⟨d, _, rfl⟩
  · exact ⟨d, _, rfl⟩

lemma dependencies_of_match? {m : Matcher} {i : ScannedInstruction} {matched : MatchedIssue}
    (h : m.match? i = some matched) : matched.issue.dependencies = some i.callNode := by
  obtain ⟨d, description, hissue⟩ := exists_issueAt_of_match? h
  rw [hissue]
  rfl

lemma isCallerTree_expand (g : CallGraph) (depth : Int) (i : ScannedInstruction) :
    CallGraph.IsCallerTree g.edges.toList (CallGraph.depthLimit depth)
      (g.expand (CallGraph.depthLimit depth) i.callNode) := by
  obtain ⟨n, hn⟩ := Nat.exists_eq_succ_of_ne_zero (Nat.ne_of_gt (CallGraph.depthLimit_pos depth))
  rw [hn]
  exact ⟨rfl, CallGraph.forall₂_callerFrames g.edges.toList n i.methodId⟩

lemma forall₂_filterMap {α β γ : Type} {f : α → Option β} {g : β → γ} {R : α → γ → Prop} {xs : List α}
    (h : ∀ x ∈ xs, ∀ y, f x = some y → R x (g y)) :
    List.Forall₂ R (xs.filter fun x => (f x).isSome) ((xs.filterMap f).map g) := by
  induction xs with
  | nil => exact .nil
  | cons x xs ih =>
    have hxs := ih fun z hz => h z (mem_cons_of_mem x hz)
    cases hx : f x with
    | none => rwa [filterMap_cons_none hx, filter_cons_of_neg (by simp [hx])]
    | some y =>
      rw [filterMap_cons_some hx, filter_cons_of_pos (by simp [hx]), map_cons]
      exact .cons (h x mem_cons_self y hx) hxs

lemma forall₂_issuesOf (ms : List LoadedModule) :
    List.Forall₂ (Reports r ms) ((instructionsOf ms).filter fun i => ((matcher r).match? i).isSome)
      (issuesOf r.callDepth (ms.map (scanned r))) := by
  have hissues : issuesOf r.callDepth (ms.map (scanned r)) =
      ((instructionsOf ms).filterMap (matcher r).match?).map fun matched =>
        (graphOf (ms.map (scanned r))).expandIssue r.callDepth matched.issue := by
    rw [issuesOf, flatMap_map, instructionsOf, filterMap_flatMap, map_flatMap, map_flatMap]
    refine flatMap_congr fun m _ => ?_
    exact map_map
  rw [hissues]
  refine forall₂_filterMap fun i _ matched hmatched => ?_
  have htree := isCallerTree_expand (graphOf (ms.map (scanned r))) r.callDepth i
  rw [edges_graphOf] at htree
  refine ⟨matched, _, hmatched, ?_, rfl, htree⟩
  rw [CallGraph.expandIssue, dependencies_of_match? hmatched]
  rfl

/-! ### The audit as a whole -/

/-- The modules of some files that can be loaded, in the order of the paths. -/
def loadable (d : Disk) (paths : List String) : List LoadedModule :=
  paths.filterMap fun path => (LoadedModule.load d path).toOption

/-- The files that cannot be loaded, with the causes, in the order of the paths. -/
def failing (d : Disk) (paths : List String) : List (String × Failure) :=
  paths.filterMap fun path =>
    match LoadedModule.load d path with
    | .ok _ => none
    | .error f => some (path, f)

lemma modules_openAll (d : Disk) (paths : List String) : (Scan.openAll d paths).modules = loadable d paths := by
  rw [Scan.openAll, loadable, filterMap_map]
  rfl

lemma failures_openAll (d : Disk) (paths : List String) :
    (Scan.openAll d paths).failures = (failing d paths).mergeSort fun a b => Text.rank a.1 ≤ Text.rank b.1 := by
  simp only [Scan.openAll, filterMap_map]
  rfl

lemma pairwise_failures_openAll (d : Disk) (paths : List String) :
    (Scan.openAll d paths).failures.Pairwise fun a b => Text.rank a.1 ≤ Text.rank b.1 := by
  rw [failures_openAll]
  exact Ascending.pairwise_mergeSort (fun f : String × Failure => Text.rank f.1) _

/-- A code audit without a cache. Unless it is cancelled before any module is opened, it sends one
informational issue for each module that cannot be loaded, in the order of the paths, and then one
issue for each instruction that the matcher accepts, in the order of the scan, over the modules
before the first look that finds it cancelled, with the callers over the calls of all these
modules. -/
theorem audit_of_disabled {r : AuditRequest} (hcache : r.cache.isEnabled = false) (d : Disk) :
    (r.isCanceled 0 = true → r.modulePaths ≠ [] →
      (audit r d).issues = [] ∧ (audit r d).ending = .failure .canceled) ∧
    (r.isCanceled 0 = false ∨ r.modulePaths = [] →
      ∃ (failures : List (String × Failure)) (k : Nat) (found : List Issue),
        failures.Perm (failing d r.modulePaths) ∧ failures.Pairwise (fun a b => Text.rank a.1 ≤ Text.rank b.1) ∧
        IsCutAt r 1 (loadable d r.modulePaths).length k ∧
        List.Forall₂ (Reports r ((loadable d r.modulePaths).take k))
          ((instructionsOf ((loadable d r.modulePaths).take k)).filter fun i =>
            ((matcher r).match? i).isSome) found ∧
        (audit r d).issues = (failures.map fun (path, f) =>
          { category := Category.code, severity := Severity.info,
            description := "Module could not be loaded: " ++ f.message,
            location := some { path } }) ++ found ∧
        (audit r d).ending =
          if k < (loadable d r.modulePaths).length then .failure .canceled else .success) := by
  constructor
  · intro hcanceled hpaths
    have hopen : Scan.openUnlessCanceled d r.modulePaths (r.isCanceled 0) = .error .canceled := by
      rw [Scan.openUnlessCanceled, hcanceled, if_pos (by simpa using hpaths)]
    have haudit : audit r d = { ending := .failure .canceled, disk := d } := by
      rw [audit, tryAudit, hopen]
    rw [haudit]
    exact ⟨rfl, rfl⟩
  · intro hopened
    have hopen : Scan.openUnlessCanceled d r.modulePaths (r.isCanceled 0) =
        .ok (Scan.openAll d r.modulePaths) := by
      rw [Scan.openUnlessCanceled, if_neg]
      rcases hopened with h | h <;> simp [h]
    have hperm : (Scan.openAll d r.modulePaths).failures.Perm (failing d r.modulePaths) := by
      rw [failures_openAll]
      exact List.mergeSort_perm ..
    -- without a cache nothing needs to hold of the files
    obtain ⟨k, hcut, hfindings, hisCut, -⟩ :=
      survey_eq (fun _ => True) (loadable d r.modulePaths) (d := d)
        (fun m _ d _ => ⟨examine_of_disabled hcache m d, trivial⟩) 1 trivial
    refine ⟨_, k, _, hperm, pairwise_failures_openAll d r.modulePaths, hcut, forall₂_issuesOf r _, ?_, ?_⟩
    · rw [issues_audit hopen, modules_openAll, hfindings]
      rfl
    · rw [audit, tryAudit, hopen]
      simp only [modules_openAll, hisCut, decide_eq_true_eq]

/-- A module in which a method that is matched has a caller. -/
def libSketch : ModuleSketch where
  name := "lib"
  types := [{
    ns := "App", name := "Game",
    methods := [
      { name := "Run", steps := [.line "game.cs" 7,
          .call Opcode.call (.named { declaring := { ns := "N", name := "C" }, name := "Size" })] },
      { name := "Start", order := 1, steps := [.line "game.cs" 3, .call Opcode.call (.declared 0 0)] }] }]

lemma isStorable_libSketch : libSketch.IsStorable := by
  have short : ∀ {k : String}, Pack.IsFieldName k → Pack.IsShortText k := Pack.IsFieldName.isShortText
  have hcall : Pack.IsShortText Opcode.call.mnemonic := short (k := "call") (by decide)
  have hsize : MethodRef.IsStorable { declaring := { ns := "N", name := "C" }, name := "Size" } :=
    ⟨.mk (short (by decide)) (short (by decide)) Pack.isShortText_empty nofun nofun, short (by decide), .nil,
      Pack.isShortText_empty⟩
  refine .ofMethods (by decide) (by decide) (by decide) (by decide) (by decide) ?_
  simp only [forall_mem_cons]
  refine ⟨.ofSteps (by decide) (by decide) ?_, .ofSteps (by decide) (by decide) ?_, nofun⟩ <;>
    simp only [forall_mem_cons]
  · exact ⟨⟨short (by decide), by decide⟩, ⟨hcall, hsize⟩, nofun⟩
  · exact ⟨⟨short (by decide), by decide⟩, ⟨hcall, trivial⟩, nofun⟩

/-- A request that is cancelled before the second module that is loaded. -/
def cutRequest : AuditRequest where
  modulePaths := ["lib.bcm", "gone.bcm", "lib.bcm"]
  catalog := ⟨Matcher.competing.map fun d => { descriptor := d }⟩
  callDepth := 2
  isCanceled looks := looks == 2

def cutDisk : Disk where
  nodes := [(["lib.bcm"], .file libSketch.build.encode)]

lemma exists_load_cutDisk : ∃ l, LoadedModule.load cutDisk "lib.bcm" = .ok l ∧
    l.content = { libSketch.build with symbols := some libSketch.buildSplit.2.normalize } :=
  LoadedModule.load_of_symbols isStorable_libSketch.build rfl (by decide) rfl rfl

theorem audit_of_disabled_cutRequest : ∃ gone issue tree,
    (audit cutRequest cutDisk).issues = [gone, issue] ∧ (audit cutRequest cutDisk).ending = .failure .canceled ∧
    gone.location = some { path := "gone.bcm" } ∧ issue.dependencies = some tree ∧ tree.name = "App.Game::Run()" ∧
    tree.children.map (·.name) = ["App.Game::Start()"] := by
  obtain ⟨l, hload, hcontent⟩ := exists_load_cutDisk
  obtain ⟨f, hgone⟩ : ∃ f, LoadedModule.load cutDisk "gone.bcm" = .error f := ⟨_, rfl⟩
  have hloadable : loadable cutDisk cutRequest.modulePaths = [l, l] := by
    simp [loadable, cutRequest, hload, hgone, Except.toOption]
  have hfailing : failing cutDisk cutRequest.modulePaths = [("gone.bcm", f)] := by
    simp [failing, cutRequest, hload, hgone]
  obtain ⟨failures, k, found, hperm, -, hcut, hfound, hissues, hending⟩ :=
    (audit_of_disabled (r := cutRequest) rfl cutDisk).2 (.inl rfl)
  rw [hloadable] at hcut hfound hending
  rw [hfailing, perm_singleton] at hperm
  obtain rfl : k = 1 := by
    rcases k with _ | _ | k
    · cases hcut.at_cut Nat.zero_lt_two
    · rfl
    · cases hcut.before 1 (by omega)
  -- the call in the first method is matched, and the second method calls the first
  have hsearch (i : ScannedInstruction) :
      (matcher cutRequest).match? i = cutRequest.catalog.search? cutRequest.platform "" .code i :=
    Matcher.match?_eq_search? Matcher.isRegistered_competing ..
  have hmatched : ((instructionsOf [l]).filter fun i => ((matcher cutRequest).match? i).isSome).map (·.methodId) =
      ["App.Game::Run()"] := by
    simp only [hsearch, instructionsOf, flatMap_cons, flatMap_nil, hcontent]
    decide +kernel
  have hcallers : ((callsOf [l]).filter fun e => e.callee = "App.Game::Run()" ∧ e.caller ≠ "App.Game::Run()").map
      (·.caller) = ["App.Game::Start()"] := by
    simp only [callsOf, instructionsOf, flatMap_cons, flatMap_nil, hcontent]
    decide +kernel
  obtain ⟨i, hfilter, hmethod⟩ := map_eq_singleton_iff.1 hmatched
  obtain ⟨e, hedges, hcaller⟩ := map_eq_singleton_iff.1 hcallers
  rw [show [l, l].take 1 = [l] from rfl, hfilter] at hfound
  obtain ⟨issue, rfl⟩ : ∃ issue, found = [issue] := length_eq_one_iff.1 hfound.length_eq.symm
  obtain ⟨⟨matched, tree, -, rfl, hroot, -, htree⟩, -⟩ := forall₂_cons.1 hfound
  have hname : tree.name = "App.Game::Run()" := by rw [hroot, ← hmethod]; rfl
  rw [hname, hedges] at htree
  obtain ⟨c, hchildren⟩ := length_eq_one_iff.1 htree.length_eq.symm
  rw [hchildren] at htree
  have hframe := (forall₂_cons.1 htree).1.1.1
  rw [hperm] at hissues
  refine ⟨_, _, tree, hissues, hending, rfl, rfl, hname, ?_⟩
  rw [hchildren, map_singleton, hframe, hcaller]

end BytecodeAudit.Analyzer.Code
