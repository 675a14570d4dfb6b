import BytecodeAudit.Analyzer
import BytecodeAudit.Proofs.CallGraph.Chains
import BytecodeAudit.Proofs.Scan.SymbolFiles

/-!
# Identities of methods

A call meets the method that it calls by name only. For modules that are built from sketches, saved
and loaded they are the same (`ModuleSketch.identities_meet`).

Calls in methods without a source position and calls of a method by itself are not found
(`ModuleSketch.not_found_loopSketch`).
-/

namespace BytecodeAudit

open List Option

namespace Module

variable {m : Module} {all : Bool} {token : UInt32} {caller : MethodRef} {near : Option Location}
  {body : List Instruction} {x : ScannedInstruction}

lemma caller_of_mem_scanBody (h : .instruction x ∈ m.scanBody all token caller near body) : x.caller = caller := by
  induction body generalizing near with
  | nil => cases h
  | cons i is ih =>
    simp only [scanBody] at h
    split at h
    · rcases mem_cons.1 h with heq | h
      · rw [ScanEvent.instruction.inj heq]
      · exact ih h
    · exact ih h

variable {i : Instruction}

lemma exists_mem_scanBody (hi : i ∈ body) (hinterest : (all || i.opcode.isOfInterest))
    (near : Option Location) : ∃ x, .instruction x ∈ m.scanBody all token caller near body ∧
      x.opcode = i.opcode ∧ x.callee = i.method := by
  induction body generalizing near with
  | nil => cases hi
  | cons j js ih =>
    simp only [scanBody]
    rcases mem_cons.1 hi with rfl | hi
    · rw [if_pos hinterest]
      exact ⟨_, mem_cons_self, rfl, rfl⟩
    · obtain ⟨x, hx, hfields⟩ := ih hi _
      split
      · exact ⟨x, mem_cons_of_mem _ hx, hfields⟩
      · exact ⟨x, hx, hfields⟩

variable {owner : TypeRef} {method : MethodDef}

lemma exists_mem_scanMethod (owner : TypeRef) (hpoints : m.hasPoints method.token)
    (hi : i ∈ method.body) (hinterest : (all || i.opcode.isOfInterest)) :
    ∃ x, .instruction x ∈ m.scanMethod all owner method ∧ x.opcode = i.opcode ∧ x.callee = i.method := by
  have hbody : ¬ method.body.isEmpty = true := by
    rw [List.isEmpty_iff]
    exact ne_nil_of_mem hi
  rw [scanMethod, if_neg hbody, hpoints, Bool.not_true, if_neg Bool.false_ne_true]
  exact exists_mem_scanBody hi hinterest none

lemma methodId_of_mem_scanMethod (h : .instruction x ∈ m.scanMethod all owner method) :
    x.methodId = (method.ref owner).fullName := by
  rw [scanMethod] at h
  split at h
  · cases h
  split at h
  · cases mem_singleton.1 h
  · rw [ScannedInstruction.methodId, caller_of_mem_scanBody h]
    exact MethodRef.fullName_congr (TypeRef.fullName_withModule owner m.name) rfl rfl

lemma mem_methods_of_methodAt? {i j : Nat} (h : m.methodAt? i j = some (owner, method)) :
    (owner, method) ∈ m.methods := by
  obtain ⟨t, hw, hmethod⟩ := bind_eq_some_iff.1 h
  obtain ⟨built, hbuilt, heq⟩ := map_eq_some_iff.1 hmethod
  cases heq
  exact mem_flatMap.2 ⟨_, mem_of_getElem? hw, mem_map.2 ⟨_, mem_of_getElem? hbuilt, rfl⟩⟩

lemma exists_edge_of_mem_body (hmethod : (owner, method) ∈ m.methods)
    (hpoints : m.hasPoints method.token) (hi : i ∈ method.body)
    (hcall : i.opcode.isCall) {target : MethodRef} (htarget : i.method = some target) :
    ∃ e ∈ m.instructions.filterMap ScannedInstruction.edge?,
      e.caller = (method.ref owner).fullName ∧ e.callee = target.fullName := by
  have hinterest : (false || i.opcode.isOfInterest) := by
    rw [Bool.false_or, Opcode.isOfInterest, hcall, Bool.true_or]
  obtain ⟨x, hscan, hopcode, hcallee⟩ := exists_mem_scanMethod owner hpoints hi hinterest
  have hinstruction : x ∈ m.instructions := mem_filterMap.2 ⟨_, mem_flatMap.2 ⟨_, hmethod, hscan⟩, rfl⟩
  have hedge : x.edge? = some
      { caller := x.methodId, callee := target.fullName, callerType := x.caller.declaring.fullName,
        callerMethod := x.caller.name, moduleName := x.moduleName, location := x.location } := by
    simp only [ScannedInstruction.edge?, hcallee, htarget, hopcode, hcall, if_true]
  exact ⟨_, mem_filterMap.2 ⟨x, hinstruction, hedge⟩, methodId_of_mem_scanMethod hscan, rfl⟩

end Module

namespace ModuleSketch

variable {s : ModuleSketch} {d : Disk} {path : String} {files : List (String × ModuleSketch)}

/-- Whether a file holds what is built from a sketch, with the entries of the symbols in any
order. -/
structure IsSavedAt (s : ModuleSketch) (path : String) (d : Disk) : Prop where
  storable : s.IsStorable
  read : ∃ whole, s.build.Rearranges whole ∧ d.read path = .ok whole.encode

/-- A disk after modules were built and saved, each in a file of its own. -/
inductive HoldsBuilt : List (String × ModuleSketch) → Disk → Prop where
  | start {d : Disk} (tree : d.IsTree) : HoldsBuilt [] d
  | save {files : List (String × ModuleSketch)} {d d' : Disk} {path : String} {s : ModuleSketch} {whole : Module}
      (before : HoldsBuilt files d) (storable : s.IsStorable) (written : s.build.Rearranges whole)
      (saved : whole.save path d = .ok d') (apart : ∀ f ∈ files, d'.place f.1 ≠ d'.place path) :
      HoldsBuilt ((path, s) :: files) d'

lemma HoldsBuilt.isSavedAt (h : HoldsBuilt files d) : d.IsTree ∧ ∀ f ∈ files, f.2.IsSavedAt f.1 d := by
  induction h with
  | start tree => exact ⟨tree, nofun⟩
  | @save files d d' path s whole before storable written saved apart ih =>
    obtain ⟨hd, hfiles⟩ := ih
    obtain ⟨hd', hread, hothers⟩ := hd.read_of_replaceFile saved
    refine ⟨hd', forall_mem_cons.2 ⟨⟨storable, whole, written, hread⟩, fun f hf => ?_⟩⟩
    -- a file that was there keeps its place, and so what it holds
    obtain ⟨hstorable, content, hcontent, hf'⟩ := hfiles f hf
    obtain ⟨q, hq, -⟩ := Disk.read_eq_ok_iff.1 hf'
    obtain ⟨p, hp, -⟩ := Disk.read_eq_ok_iff.1 hread
    have hq := hd.place_of_replaceFile saved hq
    have hne : p ≠ q := fun heq => apart f hf (by rw [hp, hq, heq])
    exact ⟨hstorable, content, hcontent, hothers _ _ _ _ hp hq hne hf'⟩

/-- Whether the symbol file beside a module file can be read, if it is there. -/
def CanLookBeside (path : String) (d : Disk) : Prop :=
  ∀ f, Symbols.load d (Module.symbolsPath path) = .error f → f.isMissingFile = true

lemma IsSavedAt.exists_load (h : s.IsSavedAt path d) (hpoints : s.buildSplit.2.isEmpty = false) :
    ∃ l, LoadedModule.load d path = .ok l ∧ s.IsLoadedAs l.content := by
  obtain ⟨hs, -, ⟨symbols, hrel, rfl⟩, hread⟩ := h
  rw [build_eq] at hread hrel
  simp only [hpoints, if_neg Bool.false_ne_true] at hrel
  cases hrel with
  | some htable => exact exists_load_of_symbols hs htable hread

/-- A module without a point is loaded too, with whatever symbols are beside it. -/
lemma IsSavedAt.exists_load_types (h : s.IsSavedAt path d) (hempty : s.buildSplit.2.isEmpty)
    (hbeside : CanLookBeside path d) :
    ∃ l, LoadedModule.load d path = .ok l ∧ l.content.types = s.buildSplit.1.types := by
  obtain ⟨hs, -, ⟨symbols, hrel, rfl⟩, hread⟩ := h
  rw [build_eq] at hread hrel
  simp only [if_pos hempty] at hrel
  cases hrel
  rcases htable : Symbols.load d (Module.symbolsPath path) with f | table
  · obtain ⟨l, hload, hcontent⟩ := LoadedModule.load_of_isMissingFile hs.buildSplit (link_buildSplit s none) (Int.le_refl 1) hread rfl htable
      (hbeside f htable)
    exact ⟨l, hload, by rw [hcontent]⟩
  · obtain ⟨l, hload, hcontent⟩ := LoadedModule.load_of_symbolFile hs.buildSplit (link_buildSplit s none) (Int.le_refl 1) hread rfl htable
    exact ⟨l, hload, by rw [hcontent]⟩

/-! ### Declared methods -/

variable {declared : MethodSketch} {i j : Nat}

lemma points_ne_nil (hs : s.IsStorable) (hdeclared : s.method? i j = some declared)
    (hpoints : (declared.run s.declarations).points ≠ []) : s.buildSplit.2.points declared.token ≠ [] := by
  rw [points_buildSplit hs.numbered (mem_methods_of_method? hdeclared)]
  exact mt reverse_eq_nil_iff.1 hpoints

lemma IsLoadedAs.hasPoints {m : Module} (h : s.IsLoadedAs m) {token : UInt32}
    (hpoints : s.buildSplit.2.points token ≠ []) : m.hasPoints token := by
  rw [Module.hasPoints_eq, h.points, Symbols.sorted, (mergeSort_perm _ _).isEmpty_eq,
    isEmpty_eq_false_iff.2 hpoints, Bool.not_false]

lemma isEmpty_eq_false (hs : s.IsStorable) (hdeclared : s.method? i j = some declared)
    (hpoints : (declared.run s.declarations).points ≠ []) : s.buildSplit.2.isEmpty = false := by
  refine Bool.eq_false_iff.2 fun hempty => ?_
  exact points_ne_nil hs hdeclared hpoints (Symbols.points_eq_nil_of_isEmpty hempty declared.token)

/-- A declared method is loaded with the body that its steps emit, under the identity that calls of
it refer to, and with points if it has any. -/
lemma IsSavedAt.exists_method (h : s.IsSavedAt path d)
    (hbeside : s.buildSplit.2.isEmpty → CanLookBeside path d) (hdeclared : s.method? i j = some declared) :
    ∃ l owner built, LoadedModule.load d path = .ok l ∧ l.content.methodAt? i j = some (owner, built) ∧
      built.body = (declared.run s.declarations).body ∧
      (built.ref owner).fullName = (s.declarations.method i j).fullName ∧
      ((declared.run s.declarations).points ≠ [] → l.content.hasPoints built.token) := by
  rcases hempty : s.buildSplit.2.isEmpty with _ | _
  · obtain ⟨l, hload, hl⟩ := h.exists_load hempty
    obtain ⟨owner, hat, hname⟩ := exists_methodAt? hl.types hdeclared
    exact ⟨l, owner, _, hload, hat, rfl, hname,
      fun hpoints => hl.hasPoints (points_ne_nil h.storable hdeclared hpoints)⟩
  · obtain ⟨l, hload, htypes⟩ := h.exists_load_types hempty (hbeside hempty)
    obtain ⟨owner, hat, hname⟩ := exists_methodAt? htypes hdeclared
    refine ⟨l, owner, _, hload, hat, rfl, hname, fun hpoints => ?_⟩
    rw [isEmpty_eq_false h.storable hdeclared hpoints] at hempty
    cases hempty

/-- A call in a method with a point is one of the calls between the modules of files, if its file is
among them. It leads from the identity of its method to the one it refers to. -/
lemma IsSavedAt.exists_edge (h : s.IsSavedAt path d) (hdeclared : s.method? i j = some declared)
    (hpoints : (declared.run s.declarations).points ≠ []) {opcode : Opcode} {target : CallTarget}
    (hcall : opcode.isCall) (hstep : .call opcode target ∈ declared.steps) {paths : List String}
    (hpath : path ∈ paths) :
    ∃ g failures, Analyzer.Code.callGraph d paths false = .ok (g, failures) ∧
      ∃ e ∈ g.edges.toList, e.caller = (s.declarations.method i j).fullName ∧
        e.callee = (s.declarations.callTarget target).fullName := by
  have hsymbols := isEmpty_eq_false h.storable hdeclared hpoints
  obtain ⟨l, owner, built, hload, hat, hbody, hname, hhas⟩ :=
    h.exists_method (fun hempty => by rw [hsymbols] at hempty; cases hempty) hdeclared
  obtain ⟨x, hx, hopcode, htarget⟩ := MethodSketch.exists_mem_body_of_call s.declarations hstep
  rw [← hbody] at hx
  obtain ⟨e, he, hcaller, hcallee⟩ := Module.exists_edge_of_mem_body (Module.mem_methods_of_methodAt? hat)
    (hhas hpoints) hx (hopcode ▸ hcall) htarget
  have hopened : l ∈ (Scan.openAll d paths).modules := mem_filterMap.2 ⟨_, mem_map_of_mem hpath, by rw [hload]; rfl⟩
  have hall : e ∈ (Scan.openAll d paths).modules.flatMap fun m =>
      m.content.instructions.filterMap ScannedInstruction.edge? := mem_flatMap.2 ⟨l, hopened, he⟩
  obtain ⟨e', he', hcaller', hcallee'⟩ := CallGraph.exists_mem_edges_ofList hall
  exact ⟨_, _, rfl, e', he', hcaller'.trans (hcaller.trans hname), hcallee'.trans hcallee⟩

/-- The identity of a declared method, in modules that were built, saved and loaded. Every
instruction of it that a scan reports has the name that calls of it refer to; if the method has a
point, all are reported. So a call that was emitted with its reference, in a method of this or
another module that has a point, is an edge to exactly that name, and the callers of the method show
where the call is made, unless the method calls itself. The file of a module without any point takes
its symbols from the file beside it. -/
theorem identities_meet (h : HoldsBuilt files d) (hfile : (path, s) ∈ files)
    (hbeside : s.buildSplit.2.isEmpty = true → CanLookBeside path d) (hdeclared : s.method? i j = some declared) :
    (∃ l owner built, LoadedModule.load d path = .ok l ∧ l.content.methodAt? i j = some (owner, built) ∧
        (∀ all x, .instruction x ∈ l.content.scanMethod all owner built →
          x.methodId = (s.declarations.method i j).fullName) ∧
        ((declared.run s.declarations).points ≠ [] → ∀ k ∈ (declared.run s.declarations).body,
          ∃ x, .instruction x ∈ l.content.scanMethod true owner built ∧ x.opcode = k.opcode ∧ x.callee = k.method)) ∧
      ∀ f ∈ files, ∀ i' j' calling, f.2.method? i' j' = some calling →
        (calling.run f.2.declarations).points ≠ [] → ∀ opcode target, opcode.isCall = true →
        .call opcode target ∈ calling.steps → f.2.declarations.callTarget target = s.declarations.method i j →
        ∀ paths, f.1 ∈ paths → ∃ g failures, Analyzer.Code.callGraph d paths false = .ok (g, failures) ∧
          (∃ e ∈ g.edges.toList, e.caller = (f.2.declarations.method i' j').fullName ∧
            e.callee = (s.declarations.method i j).fullName) ∧
          ∀ depth, (∃ c ∈ (g.hierarchy (s.declarations.method i j).fullName depth).children,
              c.name = (f.2.declarations.method i' j').fullName) ↔
            (f.2.declarations.method i' j').fullName ≠ (s.declarations.method i j).fullName := by
  obtain ⟨-, hsaved⟩ := h.isSavedAt
  refine ⟨?_, ?_⟩
  · obtain ⟨l, owner, built, hload, hat, hbody, hname, hhas⟩ := (hsaved _ hfile).exists_method hbeside hdeclared
    refine ⟨l, owner, built, hload, hat, fun all x hx => ?_, fun hpoints k hk => ?_⟩
    · exact (Module.methodId_of_mem_scanMethod hx).trans hname
    · exact Module.exists_mem_scanMethod owner (hhas hpoints) (hbody ▸ hk) (Bool.true_or _)
  · intro f hf i' j' calling hcalling hpoints opcode target hcall hstep htarget paths hpath
    obtain ⟨g, failures, hgraph, e, he, hcaller, hcallee⟩ :=
      (hsaved f hf).exists_edge hcalling hpoints hcall hstep hpath
    rw [htarget] at hcallee
    refine ⟨g, failures, hgraph, ⟨e, he, hcaller, hcallee⟩, fun depth => ?_⟩
    rw [CallGraph.exists_child_iff]
    exact and_iff_right ⟨e, he, hcaller, hcallee⟩

def pluginSketch : ModuleSketch where
  name := "Plugin"
  types := [{
    ns := "Ext", name := "Plugin",
    methods := [
      { name := "Start",
        steps := [.line "plugin.cs" 3, .call Opcode.call (.named (gameSketch.declarations.method 1 0))] }] }]

lemma isStorable_pluginSketch : pluginSketch.IsStorable := by
  have hline : BodyStep.IsStorable (.line "plugin.cs" 3) := ⟨Pack.IsFieldName.isShortText (by decide), by decide⟩
  have hcall : BodyStep.IsStorable (.call Opcode.call (.named (gameSketch.declarations.method 1 0))) :=
    ⟨Pack.IsFieldName.isShortText (k := "call") (by decide), isStorable_gameSketch.declarations.method 1 0⟩
  refine .ofMethods (by decide) (by decide) (by decide) (by decide) (by decide) (forall_mem_singleton.2 ?_)
  refine .ofSteps (by decide) (by decide) ?_
  simp only [forall_mem_cons]
  exact ⟨hline, hcall, nofun⟩

lemma exists_holdsBuilt_pluginSketch :
    ∃ d, HoldsBuilt [("out/Plugin.bcm", pluginSketch), ("out/Game.bcm", gameSketch)] d := by
  have hsome : ((gameSketch.build.save "out/Game.bcm" (.empty ["work"])).toOption.bind fun d =>
      (pluginSketch.build.save "out/Plugin.bcm" d).toOption.filter fun d' =>
        (d'.place "out/Game.bcm").toOption != (d'.place "out/Plugin.bcm").toOption).isSome = true := by
    decide +kernel
  obtain ⟨d', hboth⟩ := isSome_iff_exists.1 hsome
  obtain ⟨d, hgame, hplugin⟩ := bind_eq_some_iff.1 hboth
  obtain ⟨hplugin, hplace⟩ := filter_eq_some_iff.1 hplugin
  refine ⟨d', .save (.save (.start (Disk.isTree_empty ["work"])) isStorable_gameSketch (.refl _)
    (Disk.eq_ok_of_toOption hgame) (nofun)) isStorable_pluginSketch (.refl _)
    (Disk.eq_ok_of_toOption hplugin) (forall_mem_singleton.2 fun heq => ?_)⟩
  exact bne_iff_ne.1 hplace (congrArg Except.toOption heq)

/-- A method of a nested type is called from the type around it and from another module, and both
are found. -/
theorem identities_meet_pluginSketch :
    ∃ d, HoldsBuilt [("out/Plugin.bcm", pluginSketch), ("out/Game.bcm", gameSketch)] d ∧
      (∃ l owner built, LoadedModule.load d "out/Game.bcm" = .ok l ∧ l.content.methodAt? 1 0 = some (owner, built) ∧
        ∀ all x, .instruction x ∈ l.content.scanMethod all owner built → x.methodId = "App.Loop/Inner::Tick()") ∧
      ∀ caller ∈ ["Ext.Plugin::Start()", "App.Loop::Run()"],
        ∃ g failures, Analyzer.Code.callGraph d ["out/Game.bcm", "out/Plugin.bcm"] false = .ok (g, failures) ∧
          ∃ c ∈ (g.hierarchy "App.Loop/Inner::Tick()" 1).children, c.name = caller := by
  obtain ⟨d, hd⟩ := exists_holdsBuilt_pluginSketch
  have hname : (gameSketch.declarations.method 1 0).fullName = "App.Loop/Inner::Tick()" := by decide +kernel
  have hstart : (pluginSketch.declarations.method 0 0).fullName = "Ext.Plugin::Start()" := by decide +kernel
  have hrun : (gameSketch.declarations.method 0 0).fullName = "App.Loop::Run()" := by decide +kernel
  have hempty : gameSketch.buildSplit.2.isEmpty = true → CanLookBeside "out/Game.bcm" d := by
    rw [symbols_gameSketch]
    nofun
  have hgame : ("out/Game.bcm", gameSketch) ∈ [("out/Plugin.bcm", pluginSketch), ("out/Game.bcm", gameSketch)] :=
    List.mem_cons_of_mem _ List.mem_cons_self
  obtain ⟨⟨l, owner, built, hload, hat, hmethod, -⟩, hcalls⟩ :=
    identities_meet (i := 1) (j := 0) hd hgame hempty rfl
  rw [hname] at hmethod hcalls
  refine ⟨d, hd, ⟨l, owner, built, hload, hat, hmethod⟩, ?_⟩
  simp only [List.forall_mem_cons]
  refine ⟨?_, ?_, List.forall_mem_nil _⟩
  · obtain ⟨g, failures, hgraph, -, hfound⟩ := hcalls ("out/Plugin.bcm", pluginSketch) List.mem_cons_self 0 0 _ rfl
      (by decide) Opcode.call (.named (gameSketch.declarations.method 1 0)) (by decide) (.tail _ (.head _)) rfl
      ["out/Game.bcm", "out/Plugin.bcm"] (by decide)
    exact ⟨g, failures, hgraph, hstart ▸ (hfound 1).2 (by rw [hstart]; decide)⟩
  · obtain ⟨g, failures, hgraph, -, hfound⟩ := hcalls ("out/Game.bcm", gameSketch) hgame 0 0 _ rfl
      (by decide) Opcode.call (.declared 1 0) (by decide) (.tail _ (.tail _ (.tail _ (.head _)))) rfl
      ["out/Game.bcm", "out/Plugin.bcm"] (by decide)
    exact ⟨g, failures, hgraph, hrun ▸ (hfound 1).2 (by rw [hrun]; decide)⟩

def loopSketch : ModuleSketch where
  name := "App"
  types := [{
    ns := "App", name := "Loop",
    methods := [
      { name := "Run", steps := [.line "loop.cs" 7, .call Opcode.call (.declared 0 0)] },
      { name := "Start", order := 1, steps := [.call Opcode.call (.declared 0 0)] }] }]

lemma isStorable_loopSketch : loopSketch.IsStorable := by
  have hline : BodyStep.IsStorable (.line "loop.cs" 7) := ⟨Pack.IsFieldName.isShortText (by decide), by decide⟩
  have hcall : BodyStep.IsStorable (.call Opcode.call (.declared 0 0)) :=
    ⟨Pack.IsFieldName.isShortText (k := "call") (by decide), trivial⟩
  refine .ofMethods (by decide) (by decide) (by decide) (by decide) (by decide) ?_
  simp only [forall_mem_cons]
  refine ⟨.ofSteps (by decide) (by decide) ?_, .ofSteps (by decide) (by decide) ?_, nofun⟩
  · simp only [forall_mem_cons]
    exact ⟨hline, hcall, nofun⟩
  · exact forall_mem_singleton.2 hcall

lemma callGraph_singleton {l : LoadedModule} (hload : LoadedModule.load d path = .ok l) :
    Analyzer.Code.callGraph d [path] false =
      .ok (CallGraph.ofList (l.content.instructions.filterMap ScannedInstruction.edge?), []) := by
  simp [Analyzer.Code.callGraph, Scan.openAll, hload, Except.toOption]

/-- Neither call is found among the callers: the first is an edge of its method to itself, and the
second is none. -/
theorem not_found_loopSketch :
    ∃ d g, HoldsBuilt [("App.bcm", loopSketch)] d ∧ Analyzer.Code.callGraph d ["App.bcm"] false = .ok (g, []) ∧
      (loopSketch.declarations.method 0 0).fullName = "App.Loop::Run()" ∧
      g.edges.toList.map (fun e => (e.caller, e.callee)) = [("App.Loop::Run()", "App.Loop::Run()")] ∧
      ∀ depth, (g.hierarchy "App.Loop::Run()" depth).children = [] := by
  have hsome : (loopSketch.build.save "App.bcm" (.empty ["work"])).toOption.isSome = true := by decide +kernel
  obtain ⟨d, hsave⟩ := Option.isSome_iff_exists.1 hsome
  have hd := Disk.isTree_empty ["work"]
  have hsave := Disk.eq_ok_of_toOption hsave
  obtain ⟨-, hread, -⟩ := hd.read_of_replaceFile hsave
  have hsymbols : loopSketch.build.symbols = some loopSketch.buildSplit.2 := rfl
  obtain ⟨l, hload, hcontent⟩ := LoadedModule.load_of_symbols isStorable_loopSketch.build rfl (by decide) hread hsymbols
  have hedges : (CallGraph.ofList (l.content.instructions.filterMap ScannedInstruction.edge?)).edges.toList.map
      (fun e => (e.caller, e.callee)) = [("App.Loop::Run()", "App.Loop::Run()")] := by
    rw [hcontent, CallGraph.edges_ofList]
    decide +kernel
  refine ⟨d, _, .save (.start hd) isStorable_loopSketch (.refl _) hsave (List.forall_mem_nil _),
    callGraph_singleton hload, by decide +kernel, hedges, fun depth => ?_⟩
  refine List.eq_nil_iff_forall_not_mem.2 fun c hc => ?_
  -- a child would be another caller, and the only caller is the method itself
  obtain ⟨⟨e, he, hcaller, -⟩, hne⟩ := (CallGraph.exists_child_iff _ _ c.name depth).1 ⟨c, hc, rfl⟩
  have hpair := List.mem_map_of_mem (f := fun e : CallEdge => (e.caller, e.callee)) he
  rw [hedges, List.mem_singleton] at hpair
  exact hne (hcaller ▸ congrArg Prod.fst hpair)

end ModuleSketch

end BytecodeAudit
