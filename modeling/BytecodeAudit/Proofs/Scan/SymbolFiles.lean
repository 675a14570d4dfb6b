import BytecodeAudit.Proofs.Bytecode.Sketch
import BytecodeAudit.Proofs.Bytecode.Texts
import BytecodeAudit.Proofs.Disk.Saved
import BytecodeAudit.Scan.Findings

/-!
# Symbols inside and beside a module

A module can be saved with its symbols, or without them and with a symbol file beside it. A scan
cannot tell the two apart (`scan_load_buildSplit`): it sees a module through its name, its types and
the points of its methods (`HasSamePoints.scan_eq`). Two differences are not seen. The points of a
symbol file are sorted twice, which changes nothing (`points_normalize_normalize`).
-/

namespace BytecodeAudit

open List Option

open Pack

namespace Symbols

lemma decode_encode {s : Symbols} (h : s.IsStorable) : decode s.encode = .ok s := by
  have hread : Pack.read? (s.encode ++ []) methodsPath = some (s.toPack.asRead, []) :=
    read?_write False.elim (isPlain_toPack h).writable []
  rw [append_nil] at hread
  simp only [decode, hread, bind_some, ofPack_toPack h]

def sorted (ps : List SequencePoint) : List SequencePoint := ps.mergeSort fun a b => a.offset ≤ b.offset

lemma sorted_sorted (ps : List SequencePoint) : sorted (sorted ps) = sorted ps := by
  refine mergeSort_of_pairwise (pairwise_mergeSort (fun a b c hab hbc => ?_) (fun a b => ?_) ps)
  · rw [decide_eq_true_eq] at hab hbc ⊢
    exact UInt32.le_trans hab hbc
  · rw [Bool.or_eq_true, decide_eq_true_eq, decide_eq_true_eq]
    exact UInt32.le_total a.offset b.offset

lemma points_normalize (s : Symbols) (token : UInt32) : s.normalize.points token = sorted (s.points token) := by
  have hfind : s.normalize.entries.find? (·.1 == token) =
      (s.entries.find? (·.1 == token)).map fun e => (e.1, e.2.map sorted) := by
    rw [entries_normalize, find?_map]
    rfl
  have hnil : sorted [] = [] := mergeSort_nil
  rw [points, points, hfind]
  generalize s.entries.find? (·.1 == token) = entry
  obtain _ | ⟨key, _ | ps⟩ := entry
  · exact hnil.symm
  · exact hnil.symm
  · rfl

lemma points_normalize_normalize (s : Symbols) (token : UInt32) :
    s.normalize.normalize.points token = s.normalize.points token := by
  rw [points_normalize, points_normalize, sorted_sorted]

lemma isEmpty_normalize (s : Symbols) : s.normalize.isEmpty = s.isEmpty := by
  rw [isEmpty, isEmpty, entries_normalize, isEmpty_map]

lemma Rearranges.isEmpty_eq {s s' : Symbols} (h : s.Rearranges s') : s'.isEmpty = s.isEmpty := by
  rw [isEmpty, isEmpty, h.perm.isEmpty_eq]

lemma points_eq_nil_of_isEmpty {s : Symbols} (h : s.isEmpty) (token : UInt32) : s.points token = [] := by
  rw [isEmpty, List.isEmpty_iff] at h
  rw [points, h]
  rfl

end Symbols

namespace Module

def points (m : Module) (token : UInt32) : List SequencePoint := (m.symbols.map (·.points token)).getD []

/-- Whether two modules have the same name and types, and the same points for every method. -/
structure HasSamePoints (m m' : Module) : Prop where
  name : m'.name = m.name
  types : m'.types = m.types
  points : ∀ token, m'.points token = m.points token

variable {m m' : Module}

lemma hasPoints_eq (m : Module) (token : UInt32) : m.hasPoints token = !(m.points token).isEmpty := by
  unfold hasPoints points
  cases m.symbols <;> rfl

lemma pointAt?_eq (m : Module) (token offset : UInt32) :
    m.pointAt? token offset = Symbols.pointAt? ⟨"", some [(token, some (m.points token))]⟩ token offset := by
  have hself : Symbols.points ⟨"", some [(token, some (m.points token))]⟩ token = m.points token := by
    simp [Symbols.points, Symbols.entries]
  rw [pointAt?, Symbols.pointAt?, hself, points]
  cases m.symbols with
  | none =>
    show none = _
    simp
  | some s => rfl

namespace HasSamePoints

lemma scanBody_eq (h : m.HasSamePoints m') (all : Bool) (token : UInt32) (caller : MethodRef)
    (near : Option Location) (body : List Instruction) :
    m'.scanBody all token caller near body = m.scanBody all token caller near body := by
  induction body generalizing near with
  | nil => rfl
  | cons i is ih =>
    have hpoint : m'.pointAt? token i.offset = m.pointAt? token i.offset := by
      rw [pointAt?_eq, pointAt?_eq, h.points]
    simp only [scanBody, hpoint, ih, h.name]

lemma scanMethod_eq (h : m.HasSamePoints m') (all : Bool) (owner : TypeRef) (method : MethodDef) :
    m'.scanMethod all owner method = m.scanMethod all owner method := by
  simp only [scanMethod, hasPoints_eq, h.points, h.name, h.scanBody_eq]

lemma scan_eq (h : m.HasSamePoints m') (all : Bool) : m'.scan all = m.scan all := by
  have hmethods : m'.methods = m.methods := by rw [methods, methods, walk, walk, h.types]
  rw [scan, scan, hmethods]
  exact flatMap_congr fun e _ => h.scanMethod_eq all e.1 e.2

end HasSamePoints

/-! ### Paths -/

lemma isEnding_bcm : Path.IsEnding ".bcm" := ⟨by decide, by decide⟩

lemma isEnding_sym : Path.IsEnding ".sym" := ⟨by decide, by decide⟩

lemma symbolsPath_append (stem : String) : symbolsPath (stem ++ ".bcm") = stem ++ ".sym" := by
  have hextension : Path.extension (stem ++ ".bcm") = ".bcm" := by simp [Path.extension]
  have hstem : Path.withoutExtension (stem ++ ".bcm") = stem := by
    rw [Path.withoutExtension, hextension, String.length_append, Nat.add_sub_cancel, String.toList_append,
      ← String.length_toList, take_left, String.ofList_toList]
  rw [symbolsPath, hstem]

end Module

namespace LoadedModule

variable {d : Disk} {path : String} {m : Module} (hm : m.IsStorable) (hlink : m.link = m)
  (hversion : m.formatVersion ≤ moduleFormat) (hread : d.read path = .ok m.encode)

include hm hlink hversion hread

lemma loadAlone_of_read : loadAlone d path =
      .ok { content := { m with formatVersion := m.writtenFormat }, path, size := m.encode.length } := by
  have hdecode : Module.decode m.encode = .ok { m with formatVersion := m.writtenFormat } := by
    have happend := Module.decode_encode hm hversion []
    rwa [append_nil, hlink] at happend
  simp only [loadAlone, hread, hdecode, Except.map]

lemma load_of_symbols {s : Symbols} (hs : m.symbols = some s) : ∃ l, load d path = .ok l ∧
    l.content = { m with formatVersion := m.writtenFormat, symbols := some s.normalize } := by
  have halone := loadAlone_of_read hm hlink hversion hread
  simp only [load, halone, Except.bind, attachSymbols, hs]
  exact ⟨_, rfl, rfl⟩

lemma load_of_symbolFile (hsymbols : m.symbols = none) {s : Symbols}
    (hbeside : Symbols.load d (Module.symbolsPath path) = .ok s) :
    ∃ l, load d path = .ok l ∧
      l.content = { m with formatVersion := m.writtenFormat, symbols := some s.normalize } := by
  have halone := loadAlone_of_read hm hlink hversion hread
  simp only [load, halone, Except.bind, attachSymbols, hsymbols, hbeside]
  exact ⟨_, rfl, rfl⟩

lemma load_of_isMissingFile (hsymbols : m.symbols = none) {f : Failure}
    (hbeside : Symbols.load d (Module.symbolsPath path) = .error f) (hmissing : f.isMissingFile) :
    ∃ l, load d path = .ok l ∧ l.content = { m with formatVersion := m.writtenFormat, symbols := none } := by
  have halone := loadAlone_of_read hm hlink hversion hread
  simp only [load, halone, Except.bind, attachSymbols, hsymbols, hbeside, hmissing, if_true]
  exact ⟨_, rfl, rfl⟩

lemma load_of_missing (hsymbols : m.symbols = none)
    (hbeside : d.read (Module.symbolsPath path) = .error ⟨"open", Module.symbolsPath path, .noSuchFile⟩) :
    ∃ l, load d path = .ok l ∧ l.content = { m with formatVersion := m.writtenFormat, symbols := none } := by
  refine load_of_isMissingFile hm hlink hversion hread hsymbols
    (f := .io ⟨"open", Module.symbolsPath path, .noSuchFile⟩) ?_ rfl
  simp only [Symbols.load, hbeside]
  rfl

end LoadedModule

namespace ModuleSketch

variable {s : ModuleSketch} {stem : String}

/-- What is loaded for a sketch: the module that is built from it, with the points of its methods in
order. -/
structure IsLoadedAs (s : ModuleSketch) (m : Module) : Prop where
  content : m = { s.buildSplit.1 with symbols := m.symbols }
  hasSymbols : m.hasSymbols = !s.buildSplit.2.isEmpty
  points : ∀ token, m.points token = Symbols.sorted (s.buildSplit.2.points token)

lemma IsLoadedAs.types {m : Module} (h : s.IsLoadedAs m) : m.types = s.buildSplit.1.types :=
  (congrArg Module.types h.content).trans rfl

lemma IsLoadedAs.hasSamePoints {m m' : Module} (h : s.IsLoadedAs m) (h' : s.IsLoadedAs m') : m.HasSamePoints m' where
  name := (congrArg Module.name h'.content).trans (congrArg Module.name h.content).symm
  types := h'.types.trans h.types.symm
  points token := (h'.points token).trans (h.points token).symm

/-- Whether no method has an entry in the symbol file beside a module file, if there is such a
file. -/
def HasNoEntryBeside (path : String) (d : Disk) : Prop :=
  d.isPresent (Module.symbolsPath path) = false ∨
    ∃ table, Symbols.load d (Module.symbolsPath path) = .ok table ∧ table.isEmpty = true

section

variable (hs : s.IsStorable) {table : Symbols}
include hs

lemma exists_load_of_isEmpty (hempty : s.buildSplit.2.isEmpty) {d : Disk}
    (hread : d.read (stem ++ ".bcm") = .ok s.buildSplit.1.encode) (hbeside : HasNoEntryBeside (stem ++ ".bcm") d) :
    ∃ l, LoadedModule.load d (stem ++ ".bcm") = .ok l ∧ s.IsLoadedAs l.content := by
  have hpoints (token : UInt32) : Symbols.sorted (s.buildSplit.2.points token) = [] := by
    rw [Symbols.points_eq_nil_of_isEmpty hempty]
    exact mergeSort_nil
  rcases hbeside with hmissing | ⟨table, htable, hnone⟩
  · obtain ⟨p, hplace, -⟩ := Disk.read_eq_ok_iff.1 hread
    rw [Module.symbolsPath_append] at hmissing
    have hsymbols := Disk.read_beside_of_not_isPresent Module.isEnding_bcm Module.isEnding_sym hplace hmissing
    rw [← Module.symbolsPath_append] at hsymbols
    obtain ⟨l, hload, hcontent⟩ := LoadedModule.load_of_missing hs.buildSplit (link_buildSplit s none) (Int.le_refl 1) hread rfl hsymbols
    refine ⟨l, hload, ?_⟩
    rw [hcontent]
    exact ⟨rfl, by rw [hempty]; rfl, fun token => (hpoints token).symm⟩
  · obtain ⟨l, hload, hcontent⟩ := LoadedModule.load_of_symbolFile hs.buildSplit (link_buildSplit s none) (Int.le_refl 1) hread rfl htable
    rw [← Symbols.isEmpty_normalize] at hnone
    refine ⟨l, hload, ?_⟩
    rw [hcontent]
    refine ⟨rfl, ?_, fun token => ?_⟩
    · show (!table.normalize.isEmpty) = _
      rw [hnone, hempty]
    · show table.normalize.points token = _
      rw [hpoints, Symbols.points_eq_nil_of_isEmpty hnone]

lemma exists_load_of_symbols (htable : s.buildSplit.2.Rearranges table)
    {d : Disk} {path : String} (hread : d.read path = .ok { s.buildSplit.1 with symbols := some table }.encode) :
    ∃ l, LoadedModule.load d path = .ok l ∧ s.IsLoadedAs l.content := by
  have hstorable : Module.IsStorable { s.buildSplit.1 with symbols := some table } :=
    { hs.buildSplit with symbols := fun t ht => some.inj ht ▸ hs.symbols.rearranged htable }
  obtain ⟨l, hload, hcontent⟩ := LoadedModule.load_of_symbols hstorable (link_buildSplit s _) (Int.le_refl 1) hread rfl
  refine ⟨l, hload, ?_⟩
  rw [hcontent]
  refine ⟨rfl, ?_, fun token => ?_⟩
  · show (!table.normalize.isEmpty) = _
    rw [Symbols.isEmpty_normalize, htable.isEmpty_eq]
  · show table.normalize.points token = _
    rw [Symbols.points_normalize, htable.points_eq hs.symbols]

lemma exists_load_of_symbolFile (htable : s.buildSplit.2.Rearranges table)
    {d : Disk} (hread : d.read (stem ++ ".bcm") = .ok s.buildSplit.1.encode)
    (hbeside : d.read (Module.symbolsPath (stem ++ ".bcm")) = .ok table.encode) :
    ∃ l, LoadedModule.load d (stem ++ ".bcm") = .ok l ∧ s.IsLoadedAs l.content := by
  have hfile : Symbols.load d (Module.symbolsPath (stem ++ ".bcm")) = .ok table.normalize := by
    simp only [Symbols.load, hbeside, Symbols.decode_encode (hs.symbols.rearranged htable)]
  obtain ⟨l, hload, hcontent⟩ := LoadedModule.load_of_symbolFile hs.buildSplit (link_buildSplit s none)
    (Int.le_refl 1) hread rfl hfile
  refine ⟨l, hload, ?_⟩
  rw [hcontent]
  refine ⟨rfl, ?_, fun token => ?_⟩
  · show (!table.normalize.normalize.isEmpty) = _
    rw [Symbols.isEmpty_normalize, Symbols.isEmpty_normalize, htable.isEmpty_eq]
  · show table.normalize.normalize.points token = _
    rw [Symbols.points_normalize_normalize, Symbols.points_normalize, htable.points_eq hs.symbols]

/-- A module without a point takes the entries of the symbols beside it. -/
lemma exists_load_of_beside (hempty : s.buildSplit.2.isEmpty) {whole : Module} (hwhole : s.build.Rearranges whole)
    {d d' : Disk} (hd : d.IsTree) {path : String} (hsave : whole.save path d = .ok d') {other : Symbols}
    (hother : Symbols.load d' (Module.symbolsPath path) = .ok other) :
    ∃ l, LoadedModule.load d' path = .ok l ∧
      l.content = { s.buildSplit.1 with symbols := some other.normalize } := by
  obtain ⟨-, hread, -⟩ := hd.read_of_replaceFile hsave
  obtain ⟨symbols, hrel, rfl⟩ := hwhole
  rw [build_eq] at hread hrel
  simp only [if_pos hempty] at hrel
  cases hrel
  exact LoadedModule.load_of_symbolFile hs.buildSplit (link_buildSplit s none) (Int.le_refl 1) hread rfl hother

lemma exists_load_of_save {whole : Module} (hwhole : s.build.Rearranges whole) {d d' : Disk}
    (hd : d.IsTree) (hsave : whole.save (stem ++ ".bcm") d = .ok d')
    (hbeside : s.buildSplit.2.isEmpty → HasNoEntryBeside (stem ++ ".bcm") d') :
    ∃ l, LoadedModule.load d' (stem ++ ".bcm") = .ok l ∧ s.IsLoadedAs l.content := by
  obtain ⟨-, hread, -⟩ := hd.read_of_replaceFile hsave
  obtain ⟨symbols, hrel, rfl⟩ := hwhole
  rw [build_eq] at hread hrel
  by_cases hempty : s.buildSplit.2.isEmpty = true
  · simp only [if_pos hempty] at hrel
    cases hrel
    exact exists_load_of_isEmpty hs hempty hread (hbeside hempty)
  · simp only [if_neg hempty] at hrel
    cases hrel with
    | some htable => exact exists_load_of_symbols hs htable hread

lemma exists_load_of_saveSplit (htable : s.buildSplit.2.Rearranges table)
    {d d' d'' : Disk} (hd : d.IsTree) (hsave : s.buildSplit.1.save (stem ++ ".bcm") d = .ok d')
    (hsymbols : table.save (Module.symbolsPath (stem ++ ".bcm")) d' = .ok d'') :
    ∃ l, LoadedModule.load d'' (stem ++ ".bcm") = .ok l ∧ s.IsLoadedAs l.content := by
  obtain ⟨hd', hmodule, -⟩ := hd.read_of_replaceFile hsave
  obtain ⟨-, htableRead, hothers⟩ := hd'.read_of_replaceFile hsymbols
  refine exists_load_of_symbolFile hs htable ?_ htableRead
  -- the symbol file stands in the directory of the module file, under another name
  obtain ⟨q, hq, -⟩ := Disk.read_eq_ok_iff.1 htableRead
  have hq' := hq
  rw [Module.symbolsPath_append] at hq'
  obtain ⟨parent, front, -, hplace⟩ := Disk.exists_place_beside Module.isEnding_sym hq'
  have hp := hplace ".bcm" Module.isEnding_bcm
  have hne := Disk.place_ne_of_ending_ne Module.isEnding_sym Module.isEnding_bcm (by decide) hq' hp
  exact hothers _ _ _ _ hq hp hne hmodule

end

/-- A module that is saved with its symbols, and one that is saved with a symbol file beside it, are
both loaded, with the types that were built. One has symbols if and only if the other has, and every
scan comes across the same instructions with the same locations and skips the same methods in both.
The order of the entries of the symbols is free. Where no point is set, the first module has no
symbols of its own, so it takes entries of other symbols that stand beside it already, which the
symbol file of the second overwrites. -/
theorem scan_load_buildSplit (hs : s.IsStorable) (stem : String) {whole : Module} (hwhole : s.build.Rearranges whole)
    {d d' : Disk} (hd : d.IsTree) (hsave : whole.save (stem ++ ".bcm") d = .ok d')
    {table : Symbols} (htable : s.buildSplit.2.Rearranges table) {e e' e'' : Disk} (he : e.IsTree)
    (hsplit : s.buildSplit.1.save (stem ++ ".bcm") e = .ok e')
    (hsymbols : table.save (Module.symbolsPath (stem ++ ".bcm")) e' = .ok e'') :
    ∃ m', LoadedModule.load e'' (stem ++ ".bcm") = .ok m' ∧ m'.content.types = s.buildSplit.1.types ∧
      m'.content.hasSymbols = !s.buildSplit.2.isEmpty ∧
      ((s.buildSplit.2.isEmpty = true → HasNoEntryBeside (stem ++ ".bcm") d') →
        ∃ m, LoadedModule.load d' (stem ++ ".bcm") = .ok m ∧ m'.content.types = m.content.types ∧
          m'.content.hasSymbols = m.content.hasSymbols ∧ ∀ all, m'.content.scan all = m.content.scan all) ∧
      (s.buildSplit.2.isEmpty = true → ∀ other, Symbols.load d' (Module.symbolsPath (stem ++ ".bcm")) = .ok other →
        ∃ m, LoadedModule.load d' (stem ++ ".bcm") = .ok m ∧
          m.content = { s.buildSplit.1 with symbols := some other.normalize }) := by
  obtain ⟨m', hload', hm'⟩ := exists_load_of_saveSplit hs htable he hsplit hsymbols
  refine ⟨m', hload', hm'.types, hm'.hasSymbols, fun hbeside => ?_,
    fun hempty other hother => exists_load_of_beside hs hempty hwhole hd hsave hother⟩
  obtain ⟨m, hload, hm⟩ := exists_load_of_save hs hwhole hd hsave hbeside
  have hsame := hm.hasSamePoints hm'
  exact ⟨m, hload, hsame.types, hm'.hasSymbols.trans hm.hasSymbols.symm, hsame.scan_eq⟩

/-- A sketch with a nested type, a hidden point, and a method without a point, which was declared
last. -/
def gameSketch : ModuleSketch where
  name := "Game"
  types := [{
    ns := "App", name := "Loop",
    methods := [
      { name := "Run", steps := [.line "loop.cs" 7, .op ⟨"ldarg"⟩, .hidden, .call Opcode.call (.declared 1 0)] },
      { name := "Stop", order := 2 }],
    nested := [{
      name := "Inner", methods := [{ name := "Tick", order := 1, steps := [.line "loop.cs" 12, .loadInt (-1)] }] }] }]

lemma isStorable_gameSketch : gameSketch.IsStorable := by
  have short : ∀ {k : String}, IsFieldName k → IsShortText k := IsFieldName.isShortText
  have run : ∀ step ∈ [BodyStep.line "loop.cs" 7, .op ⟨"ldarg"⟩, .hidden, .call Opcode.call (.declared 1 0)],
      step.IsStorable := by
    simp only [forall_mem_cons]
    exact ⟨⟨short (by decide), by decide⟩, short (k := "ldarg") (by decide), trivial,
      ⟨short (k := "call") (by decide), trivial⟩, nofun⟩
  have tick : ∀ step ∈ [BodyStep.line "loop.cs" 12, .loadInt (-1)], step.IsStorable := by
    simp only [forall_mem_cons]
    exact ⟨⟨short (by decide), by decide⟩, show IsLong (-1) by decide, nofun⟩
  refine ⟨short (by decide), short (by decide), short (by decide), .singleton ?_, by decide, by decide⟩
  refine .mk (short (by decide)) (short (by decide)) .nil ⟨by decide, ?_⟩ (by decide) fun t ht => ?_
  · simp only [forall_mem_cons]
    exact ⟨.ofSteps (by decide) (by decide) run, .ofSteps (by decide) (by decide) (nofun), nofun⟩
  · obtain rfl := mem_singleton.1 ht
    exact .mk (short (by decide)) (short (by decide)) .nil (.singleton (.ofSteps (by decide) (by decide) tick))
      (by decide) (nofun)

def gameEntries : List (UInt32 × Option (List SequencePoint)) :=
  [(0x06000001, some [{ document := "loop.cs", line := 7 }, { offset := 1, hidden := true }]),
    (0x06000002, some [{ document := "loop.cs", line := 12 }])]

lemma symbols_gameSketch : gameSketch.buildSplit.2 = ⟨"Game", some gameEntries⟩ := by decide

lemma exists_save_gameSketch : ∃ d, gameSketch.build.save ("out/Game" ++ ".bcm") (.empty ["work"]) = .ok d := by
  have hsome : (gameSketch.build.save ("out/Game" ++ ".bcm") (.empty ["work"])).toOption.isSome := by
    decide +kernel
  obtain ⟨d, hd⟩ := isSome_iff_exists.1 hsome
  exact ⟨d, Disk.eq_ok_of_toOption hd⟩

lemma exists_saveSplit_gameSketch :
    ∃ d d', gameSketch.buildSplit.1.save ("out/Game" ++ ".bcm") (.empty ["work"]) = .ok d ∧
      Symbols.save ⟨"Game", some gameEntries.reverse⟩ (Module.symbolsPath ("out/Game" ++ ".bcm")) d = .ok d' := by
  have hsome : ((gameSketch.buildSplit.1.save ("out/Game" ++ ".bcm") (.empty ["work"])).toOption.bind fun d =>
      (Symbols.save ⟨"Game", some gameEntries.reverse⟩ (Module.symbolsPath ("out/Game" ++ ".bcm")) d).toOption).isSome =
        true := by
    decide +kernel
  obtain ⟨d', hboth⟩ := isSome_iff_exists.1 hsome
  obtain ⟨d, hd, hd'⟩ := bind_eq_some_iff.1 hboth
  exact ⟨d, d', Disk.eq_ok_of_toOption hd, Disk.eq_ok_of_toOption hd'⟩

theorem scan_load_buildSplit_gameSketch :
    gameSketch.IsStorable ∧ ∃ d' e' e'' m m',
      gameSketch.build.save ("out/Game" ++ ".bcm") (.empty ["work"]) = .ok d' ∧
      gameSketch.buildSplit.1.save ("out/Game" ++ ".bcm") (.empty ["work"]) = .ok e' ∧
      Symbols.save ⟨"Game", some gameEntries.reverse⟩ (Module.symbolsPath ("out/Game" ++ ".bcm")) e' = .ok e'' ∧
      LoadedModule.load d' ("out/Game" ++ ".bcm") = .ok m ∧ LoadedModule.load e'' ("out/Game" ++ ".bcm") = .ok m' ∧
      m'.content.types = gameSketch.buildSplit.1.types ∧ m'.content.types = m.content.types ∧
      m'.content.hasSymbols = m.content.hasSymbols ∧ ∀ all, m'.content.scan all = m.content.scan all := by
  have hd : (Disk.empty ["work"]).IsTree := Disk.isTree_empty ["work"]
  have htable : gameSketch.buildSplit.2.Rearranges ⟨"Game", some gameEntries.reverse⟩ := by
    rw [symbols_gameSketch]
    exact ⟨rfl, .some (List.reverse_perm _).symm⟩
  have hempty : gameSketch.buildSplit.2.isEmpty = false := by rw [symbols_gameSketch]; rfl
  obtain ⟨d', hsave⟩ := exists_save_gameSketch
  obtain ⟨e', e'', hsplit, hsymbols⟩ := exists_saveSplit_gameSketch
  obtain ⟨m', hload', htypes, -, hsame, -⟩ := scan_load_buildSplit isStorable_gameSketch "out/Game" (.refl _) hd hsave
    htable hd hsplit hsymbols
  obtain ⟨m, hload, heq⟩ := hsame (by simp [hempty])
  exact ⟨isStorable_gameSketch, d', e', e'', m, m', hsave, hsplit, hsymbols, hload, hload', htypes, heq⟩

/-- A sketch without a point. -/
def quietSketch : ModuleSketch where
  name := "Game"
  types := [{ ns := "App", name := "Loop", methods := [{ name := "Run", steps := [.op ⟨"ldarg"⟩] }] }]

lemma isStorable_quietSketch : quietSketch.IsStorable := by
  refine .ofMethods (by decide) (by decide) (by decide) (by decide) (by decide) (forall_mem_singleton.2 ?_)
  exact .ofSteps (by decide) (by decide) (forall_mem_singleton.2 (IsFieldName.isShortText (k := "ldarg") (by decide)))

def besideEachOther (m : Module) (s : Symbols) : Disk where
  nodes := [(["Game.bcm"], .file m.encode), (["Game.sym"], .file s.encode)]

/-- Beside the symbols of an older build, a module that is saved whole takes them; the pair
overwrites them. So one has symbols and the other has none. -/
theorem hasSymbols_ne_quietSketch : ∃ m m',
    LoadedModule.load (besideEachOther quietSketch.build gameSketch.buildSplit.2) ("Game" ++ ".bcm") = .ok m ∧
    LoadedModule.load (besideEachOther quietSketch.buildSplit.1 quietSketch.buildSplit.2) ("Game" ++ ".bcm") = .ok m' ∧
    m.content.hasSymbols = true ∧ m'.content.hasSymbols = false := by
  have hs := isStorable_quietSketch
  have hother : Symbols.load (besideEachOther quietSketch.build gameSketch.buildSplit.2) "Game.sym" =
      .ok gameSketch.buildSplit.2.normalize := by
    have hread : (besideEachOther quietSketch.build gameSketch.buildSplit.2).read "Game.sym" =
        .ok gameSketch.buildSplit.2.encode := rfl
    simp only [Symbols.load, hread, Symbols.decode_encode isStorable_gameSketch.symbols]
  have hread : (besideEachOther quietSketch.build gameSketch.buildSplit.2).read ("Game" ++ ".bcm") =
      .ok quietSketch.buildSplit.1.encode := rfl
  obtain ⟨m, hload, hcontent⟩ := LoadedModule.load_of_symbolFile hs.buildSplit (link_buildSplit quietSketch none)
    (Int.le_refl 1) hread rfl hother
  have hread' : (besideEachOther quietSketch.buildSplit.1 quietSketch.buildSplit.2).read ("Game" ++ ".bcm") =
      .ok quietSketch.buildSplit.1.encode := rfl
  obtain ⟨m', hload', hm'⟩ := exists_load_of_symbolFile hs (.refl _) hread' rfl
  refine ⟨m, m', hload, hload', ?_, hm'.hasSymbols⟩
  rw [hcontent]
  show (!gameSketch.buildSplit.2.normalize.normalize.isEmpty) = true
  rw [Symbols.isEmpty_normalize, Symbols.isEmpty_normalize, symbols_gameSketch]
  rfl

end ModuleSketch

end BytecodeAudit
