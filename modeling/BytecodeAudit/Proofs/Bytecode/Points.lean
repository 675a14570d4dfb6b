import BytecodeAudit.Proofs.Ascending
import BytecodeAudit.Proofs.Scan.SymbolFiles

/-!
# Points at offsets

A look-up of the point at an offset bisects the points of a method. In a table in the order of
offsets this finds the first point with the offset (`Symbols.bisect_eq`, `Symbols.firstAt?`).

A method is told by its emissions, each an instruction with the marks before it
(`Emission.ofSteps`). The state of building has the same instructions and the points of the last
marks (`BodyState.foldl_step`), and offsets ascend as long as they do not wrap
(`Emission.pairwise_offsets`).
-/

namespace BytecodeAudit

open List Option

namespace Symbols

/-- The first point of a method with an offset in the order of the table, unless it is hidden. -/
def firstAt? (s : Symbols) (token offset : UInt32) : Option SequencePoint :=
  ((s.points token).find? (·.offset = offset)).filter (!·.hidden)

section Bisection

variable {ps : List SequencePoint} (h : ps.Pairwise fun a b => a.offset ≤ b.offset) (offset : UInt32)

include h

lemma lt_length_takeWhile_iff {i : Nat} (hi : i < ps.length) :
    i < (ps.takeWhile (·.offset < offset)).length ↔ (ps.toArray.getD i {}).offset < offset := by
  induction ps generalizing i with
  | nil => cases hi
  | cons p ps ih =>
    obtain ⟨hp, hps⟩ := pairwise_cons.1 h
    rw [takeWhile_cons]
    by_cases hlt : p.offset < offset
    · cases i with
      | zero => simp [hlt]
      | succ i => simpa [hlt] using ih hps (Nat.lt_of_succ_lt_succ hi)
    · have hle : offset ≤ ((p :: ps).toArray.getD i {}).offset := by
        cases i with
        | zero => simpa using hlt
        | succ i =>
          have hi : i < ps.length := Nat.lt_of_succ_lt_succ hi
          simpa [hi] using UInt32.le_trans (UInt32.not_lt.1 hlt) (hp _ (getElem_mem hi))
      simpa [hlt] using hle

/-- Bisection ends where the offsets stop being less, if they do so between the bounds. -/
lemma bisect_eq {lo hi : Nat} (hlo : lo ≤ (ps.takeWhile (·.offset < offset)).length)
    (hhi : (ps.takeWhile (·.offset < offset)).length ≤ hi) (hsize : hi ≤ ps.length) :
    bisect ps.toArray offset lo hi = (ps.takeWhile (·.offset < offset)).length := by
  fun_induction bisect ps.toArray offset lo hi with
  | case1 lo hi hlt mid hless ih =>
    exact ih ((lt_length_takeWhile_iff h offset (by omega)).2 hless) hhi hsize
  | case2 lo hi hlt mid hless ih =>
    have hmid := mt (lt_length_takeWhile_iff h offset (i := mid) (by omega)).1 hless
    exact ih hlo (by omega) (by omega)
  | case3 lo hi hge => omega

/-- The first point whose offset is not less is the first one with the offset, or there is none with
it. -/
lemma filter_getElem?_length_takeWhile :
    ps[(ps.takeWhile (·.offset < offset)).length]?.filter (·.offset = offset) = ps.find? (·.offset = offset) := by
  induction ps with
  | nil => rfl
  | cons p ps ih =>
    obtain ⟨hp, hps⟩ := pairwise_cons.1 h
    by_cases hlt : p.offset < offset
    · simpa [hlt, UInt32.ne_of_lt hlt] using ih hps
    rw [takeWhile_cons_of_neg (by simpa using hlt), length_nil, getElem?_cons_zero, find?_cons]
    by_cases heq : p.offset = offset
    · simp [heq]
    · have hnone : ps.find? (·.offset = offset) = none := by
        refine List.find?_eq_none.2 fun q hq hqe => heq ?_
        exact UInt32.le_antisymm (of_decide_eq_true hqe ▸ hp q hq) (UInt32.not_lt.1 hlt)
      rw [decide_eq_false heq, hnone]
      exact Option.filter_some_neg (by simpa using heq)

end Bisection

/-- In a table in the order of offsets, a look-up finds what a search through all points finds. -/
lemma pointAt?_of_pairwise {s : Symbols} {token : UInt32}
    (h : (s.points token).Pairwise fun a b => a.offset ≤ b.offset) (offset : UInt32) :
    s.pointAt? token offset = s.firstAt? token offset := by
  have hend := bisect_eq h offset (Nat.zero_le _) (takeWhile_sublist _).length_le (Nat.le_refl _)
  rw [firstAt?, ← filter_getElem?_length_takeWhile h]
  simp only [pointAt?, List.size_toArray, List.getElem?_toArray, hend]
  generalize (s.points token)[((s.points token).takeWhile (·.offset < offset)).length]? = found
  rcases found with _ | p
  · rfl
  · by_cases hp : p.offset = offset <;> cases hh : p.hidden <;> simp [Option.filter, hp, hh]

lemma sorted_eq (ps : List SequencePoint) : sorted ps = ps.mergeSort fun a b => a.offset.toNat ≤ b.offset.toNat := rfl

/-- Sorting keeps points with one offset in their order. -/
lemma firstAt?_normalize (s : Symbols) (token offset : UInt32) :
    s.normalize.firstAt? token offset = s.firstAt? token offset := by
  have hfilter := Ascending.filter_mergeSort (fun p : SequencePoint => p.offset.toNat) (s.points token) offset.toNat
  simp only [UInt32.toNat_inj] at hfilter
  rw [firstAt?, firstAt?, points_normalize, sorted_eq, ← head?_filter, hfilter, head?_filter]

lemma pointAt?_normalize (s : Symbols) (token offset : UInt32) :
    s.normalize.pointAt? token offset = s.firstAt? token offset := by
  rw [pointAt?_of_pairwise, firstAt?_normalize]
  rw [points_normalize, sorted_eq]
  exact Ascending.pairwise_mergeSort (fun p : SequencePoint => p.offset.toNat) (s.points token)

end Symbols

namespace LoadedModule

/-- The symbols that count for a module file: those of the module, or else those of the file beside
it. -/
inductive TakesSymbols (d : Disk) (path : String) : Option Symbols → Option Symbols → Prop
  | own (s : Symbols) : TakesSymbols d path (some s) (some s)
  | beside {bytes : Bytes} {s : Symbols} (read : d.read (Module.symbolsPath path) = .ok bytes)
      (decode : Symbols.decode bytes = .ok s) : TakesSymbols d path none (some s)
  | missing {e : IoError} (read : d.read (Module.symbolsPath path) = .error e) (reason : e.reason = .noSuchFile) :
      TakesSymbols d path none none

/-- A module is loaded from its files, and a look-up finds the first point with the offset in the
order of the files, unless that point is hidden. -/
theorem exists_load_pointAt?_eq {d : Disk} {path : String} {bytes : Bytes} {content : Module}
    (hread : d.read path = .ok bytes) (hdecode : Module.decode bytes = .ok content) {symbols : Option Symbols}
    (h : TakesSymbols d path content.symbols symbols) :
    ∃ m, load d path = .ok m ∧
      ∀ token offset, m.content.pointAt? token offset = symbols.bind (·.firstAt? token offset) := by
  have halone : loadAlone d path = .ok ⟨content, path, bytes.length⟩ := by
    simp only [loadAlone, hread, hdecode, Except.map]
  generalize hown : content.symbols = own at h
  cases h with
  | own s =>
    simp only [load, halone, Except.bind, attachSymbols, hown]
    exact ⟨_, rfl, s.pointAt?_normalize⟩
  | beside read decode =>
    -- the points of the other file were sorted when it was read
    simp only [load, halone, Except.bind, attachSymbols, hown, Symbols.load, read, decode]
    exact ⟨_, rfl, fun token offset =>
      (Symbols.pointAt?_normalize _ token offset).trans (Symbols.firstAt?_normalize _ token offset)⟩
  | missing read reason =>
    obtain ⟨f, hf, hmissing⟩ : ∃ f, Symbols.load d (Module.symbolsPath path) = .error f ∧ f.isMissingFile := by
      simp only [Symbols.load, read]
      split <;> exact ⟨_, rfl, by simp [Failure.isMissingFile, Failure.chain, reason]⟩
    simp only [load, halone, Except.bind, attachSymbols, hown, hf, hmissing, if_true]
    exact ⟨_, rfl, fun _ _ => rfl⟩

def unordered : Symbols :=
  ⟨"M", some [(7, some [{ offset := 0xFFFFFFFF, document := "a.cs", line := 3 }, { document := "a.cs", line := 1 },
    { offset := 0xFFFFFFFF, hidden := true }, { offset := 2, hidden := true }])]⟩

def unorderedFiles : Disk where
  nodes := [(["M.bcm"], .file (Module.encode { name := "M" })), (["M.sym"], .file unordered.encode)]

theorem exists_load_pointAt?_eq_unordered :
    Module.decode (Module.encode { name := "M" }) = .ok { name := "M", formatVersion := 1 } ∧
    ∃ m, load unorderedFiles "M.bcm" = .ok m ∧
      m.content.pointAt? 7 0xFFFFFFFF = some { offset := 0xFFFFFFFF, document := "a.cs", line := 3 } ∧
      m.content.pointAt? 7 2 = none := by
  have hmodule : Module.decode (Module.encode { name := "M" }) = .ok { name := "M", formatVersion := 1 } := by
    have hstorable : Module.IsStorable { name := "M" } :=
      ⟨by decide, Pack.IsFieldName.isShortText (by decide), Pack.isShortText_empty, Pack.isShortText_empty,
        fun _ h => absurd h (by simp), fun _ h => absurd h (by simp)⟩
    have hdecode := Module.decode_encode hstorable (by decide) []
    rwa [append_nil] at hdecode
  have htable : Symbols.decode unordered.encode = .ok unordered := Disk.eq_ok_of_toOption (by decide +kernel)
  have hread : unorderedFiles.read "M.bcm" = .ok (Module.encode { name := "M" }) := rfl
  have hbeside : unorderedFiles.read (Module.symbolsPath "M.bcm") = .ok unordered.encode := rfl
  obtain ⟨m, hm, hpoints⟩ := exists_load_pointAt?_eq hread hmodule (.beside hbeside htable)
  exact ⟨hmodule, m, hm, (hpoints 7 0xFFFFFFFF).trans (by decide), (hpoints 7 2).trans (by decide)⟩

end LoadedModule

/-! ### Marked instructions -/

lemma Opcode.size_pos (o : Opcode) : 0 < o.size.toNat := by
  unfold size
  split <;> decide

namespace BodyStep

/-- What a step emits: an instruction without an offset, unless the step only marks the next one. -/
def instruction? (d : Declarations) : BodyStep → Option Instruction
  | .line .. | .hidden => none
  | .op opcode => some { opcode }
  | .call opcode target => some { opcode, method := some (d.callTarget target) }
  | .convert opcode target => some { opcode, typeRef := some (d.typeTarget target) }
  | .loadString text => some { opcode := Opcode.loadString, text }
  | .loadInt int => some { opcode := Opcode.loadInt, int }

/-- The position in the source that a mark shows at an offset. -/
def shown? (offset : UInt32) : BodyStep → Option SequencePoint
  | .line document n => some { offset, document, line := n }
  | _ => none

def point (offset : UInt32) (mark : BodyStep) : SequencePoint := (mark.shown? offset).getD { offset, hidden := true }

lemma filter_point (offset : UInt32) (mark : BodyStep) :
    (some (mark.point offset)).filter (!·.hidden) = mark.shown? offset := by
  cases mark <;> rfl

end BodyStep

/-- An emitted instruction, with the marks that were set since the instruction before it. -/
structure Emission where
  instruction : Instruction
  marks : List BodyStep

namespace Emission

/-- What steps emit from an offset on, after marks that are set already. -/
def ofSteps (d : Declarations) (offset : UInt32) (marks : List BodyStep) : List BodyStep → List Emission
  | [] => []
  | step :: steps =>
    match step.instruction? d with
    | some i => ⟨{ i with offset }, marks⟩ :: ofSteps d (offset + i.opcode.size) [] steps
    | none => ofSteps d offset (marks ++ [step]) steps

def offset (e : Emission) : UInt32 := e.instruction.offset

/-- The last mark decides. -/
def point? (e : Emission) : Option SequencePoint := e.marks.getLast?.map (·.point e.offset)

def size (es : List Emission) : Nat := (es.map (·.instruction.opcode.size.toNat)).sum

/-- The offset behind emissions. -/
def nextOffset (offset : UInt32) (es : List Emission) : UInt32 := offset + UInt32.ofNat (size es)

/-- The offsets of emissions, and the one behind them. -/
def offsets (start : UInt32) (es : List Emission) : List UInt32 := es.map offset ++ [nextOffset start es]

lemma nextOffset_cons (offset : UInt32) (e : Emission) (es : List Emission) :
    nextOffset offset (e :: es) = nextOffset (offset + e.instruction.opcode.size) es := by
  simp [nextOffset, size, UInt32.ofNat_add, UInt32.add_assoc]

lemma offsets_cons (start : UInt32) (e : Emission) (es : List Emission) :
    offsets start (e :: es) = e.offset :: offsets (start + e.instruction.opcode.size) es := by
  rw [offsets, nextOffset_cons, map_cons, cons_append, offsets]

/-- Every instruction takes at least a byte, so offsets ascend as long as they do not wrap. -/
lemma pairwise_offsets (d : Declarations) (start : UInt32) (marks steps : List BodyStep)
    (h : start.toNat + size (ofSteps d start marks steps) < 0x100000000) :
    (∀ o ∈ offsets start (ofSteps d start marks steps), start ≤ o) ∧
      (offsets start (ofSteps d start marks steps)).Pairwise (· < ·) := by
  fun_induction ofSteps d start marks steps with
  | case1 => simp [offsets, nextOffset, size]
  | case2 start marks step steps i hi ih =>
    have hsize : size (⟨{ i with offset := start }, marks⟩ :: ofSteps d (start + i.opcode.size) [] steps) =
        i.opcode.size.toNat + size (ofSteps d (start + i.opcode.size) [] steps) := sum_cons
    rw [hsize] at h
    have hpos := i.opcode.size_pos
    have hnext : (start + i.opcode.size).toNat = start.toNat + i.opcode.size.toNat := by
      rw [UInt32.toNat_add, Nat.mod_eq_of_lt (by omega)]
    obtain ⟨hle, hpairwise⟩ := ih (by omega)
    have hlt : ∀ o ∈ offsets (start + i.opcode.size) (ofSteps d (start + i.opcode.size) [] steps), start < o := by
      intro o ho
      have hstart := UInt32.le_iff_toNat_le.1 (hle o ho)
      exact UInt32.lt_iff_toNat_lt.2 (by omega)
    rw [offsets_cons]
    refine ⟨forall_mem_cons.2 ⟨UInt32.le_refl _, fun o ho => UInt32.le_of_lt (hlt o ho)⟩, ?_⟩
    exact pairwise_cons.2 ⟨hlt, hpairwise⟩
  | case3 start marks step steps hi ih => exact ih h

end Emission

namespace BodyState

open Emission

lemma step_of_instruction? {d : Declarations} {step : BodyStep} (s : BodyState) {i : Instruction}
    (h : step.instruction? d = some i) : BodyState.step d s step = s.emit i := by
  cases step <;> cases h <;> rfl

lemma step_of_mark {d : Declarations} {step : BodyStep} (s : BodyState) (h : step.instruction? d = none) :
    BodyState.step d s step = { s with pending := some (step.point 0) } := by
  cases step with
  | line | hidden => rfl
  | _ => cases h

/-- The state of building after some steps. What is pending stands for the last of the marks before
them. -/
lemma foldl_step (d : Declarations) (s : BodyState) (marks steps : List BodyStep)
    (h : s.pending = marks.getLast?.map (·.point 0)) :
    let es := ofSteps d s.offset marks steps
    let last := steps.foldl (BodyState.step d) s
    last.emitted = (es.map (·.instruction)).reverse ++ s.emitted ∧
      last.points = (es.filterMap point?).reverse ++ s.points ∧ last.offset = nextOffset s.offset es := by
  induction steps generalizing s marks with
  | nil => simp [ofSteps, nextOffset, size]
  | cons step steps ih =>
    rw [foldl_cons]
    cases hi : step.instruction? d with
    | none =>
      rw [step_of_mark s hi, ofSteps, hi]
      exact ih _ _ (by simp)
    | some i =>
      rw [step_of_instruction? s hi, ofSteps, hi]
      obtain ⟨hemitted, hpoints, hoffset⟩ := ih (s.emit i) [] rfl
      refine ⟨?_, ?_, ?_⟩
      · rw [hemitted, map_cons, reverse_cons, append_assoc]
        rfl
      · have hemit : (s.emit i).points = (point? ⟨{ i with offset := s.offset }, marks⟩).toList ++ s.points := by
          simp only [emit, h, point?]
          cases marks.getLast? with
          | none => rfl
          | some mark => cases mark <;> rfl
        rw [hpoints, hemit]
        cases hpoint : point? ⟨{ i with offset := s.offset }, marks⟩ with
        | none => rw [filterMap_cons_none hpoint]; rfl
        | some p => simp [filterMap_cons_some hpoint, emit]
      · rw [hoffset, nextOffset_cons]
        rfl

lemma body_eq (s : BodyState) : s.body = s.emitted.reverse ++
    if s.emitted.head?.any (·.opcode == Opcode.ret) then [] else [{ offset := s.offset, opcode := Opcode.ret }] := by
  unfold body
  split
  case h_1 h => rw [h]; rfl
  case h_2 i _ h =>
    rw [h, head?_cons, any_some]
    split
    · rw [append_nil]
    · rfl

end BodyState

/-- What the steps of a method emit. -/
def MethodSketch.emissions (d : Declarations) (m : MethodSketch) : List Emission := Emission.ofSteps d 0 [] m.steps

namespace Emission

/-- What building appends to emissions: a return, if they do not end in one. -/
def ending (es : List Emission) : List Instruction :=
  if es.getLast?.any (·.instruction.opcode == Opcode.ret) then []
  else [{ offset := nextOffset 0 es, opcode := Opcode.ret }]

/-- A body with its points, as emissions determine them. -/
structure Determines (es : List Emission) (body : List Instruction) (points : List SequencePoint) : Prop where
  body_eq : body = es.map (·.instruction) ++ ending es
  getLast?_body : body.getLast?.map (·.opcode) = some Opcode.ret
  pairwise_body : body.Pairwise (·.offset < ·.offset)
  points_eq : points = es.filterMap point?
  pairwise_points : points.Pairwise (·.offset < ·.offset)

lemma filter_point? (e : Emission) : e.point?.filter (!·.hidden) = e.marks.getLast?.bind (·.shown? e.offset) := by
  rw [point?]
  cases e.marks.getLast? with
  | none => rfl
  | some mark => exact mark.filter_point e.offset

lemma offset_of_mem_point? {e : Emission} {p : SequencePoint} (h : p ∈ e.point?) : p.offset = e.offset := by
  obtain ⟨mark, -, rfl⟩ := map_eq_some_iff.1 h
  cases mark <;> rfl

lemma find?_points_eq_none {es : List Emission} {offset : UInt32} (h : ∀ e ∈ es, e.offset ≠ offset) :
    (es.filterMap point?).find? (·.offset = offset) = none := by
  refine find?_eq_none.2 fun p hp heq => ?_
  obtain ⟨e, he, hpoint⟩ := mem_filterMap.1 hp
  exact h e he ((offset_of_mem_point? hpoint).symm.trans (of_decide_eq_true heq))

section Increasing

variable {es : List Emission} (h : (offsets 0 es).Pairwise (· < ·))

include h

lemma pairwise_offset : es.Pairwise (·.offset < ·.offset) := pairwise_map.1 (pairwise_append.1 h).1

lemma pairwise_body : (es.map (·.instruction) ++ ending es).Pairwise (·.offset < ·.offset) := by
  rw [← pairwise_map (f := Instruction.offset)]
  refine h.sublist ?_
  rw [map_append, List.map_map]
  refine Sublist.append (Sublist.refl _) ?_
  unfold ending
  split
  · exact nil_sublist _
  · exact Sublist.refl _

lemma pairwise_points : (es.filterMap point?).Pairwise (·.offset < ·.offset) := by
  refine (pairwise_offset h).filterMap point? fun e e' hlt p hp p' hp' => ?_
  rw [offset_of_mem_point? hp, offset_of_mem_point? hp']
  exact hlt

lemma find?_points {e : Emission} (he : e ∈ es) : (es.filterMap point?).find? (·.offset = e.offset) = e.point? := by
  obtain ⟨before, after, rfl⟩ := append_of_mem he
  obtain ⟨-, hafter, hbefore⟩ := pairwise_append.1 (pairwise_offset h)
  rw [filterMap_append, find?_append,
    find?_points_eq_none fun e' he' => UInt32.ne_of_lt (hbefore e' he' e mem_cons_self), none_or]
  cases hpoint : e.point? with
  | none =>
    rw [filterMap_cons_none hpoint]
    exact find?_points_eq_none fun e' he' heq => UInt32.ne_of_lt ((pairwise_cons.1 hafter).1 e' he') heq.symm
  | some p => rw [filterMap_cons_some hpoint, find?_cons_of_pos (by simpa using offset_of_mem_point? hpoint)]

lemma find?_points_ending {i : Instruction} (hi : i ∈ ending es) :
    (es.filterMap point?).find? (·.offset = i.offset) = none := by
  refine find?_points_eq_none fun e he => UInt32.ne_of_lt ?_
  have hoffset : i.offset = nextOffset 0 es := by
    unfold ending at hi
    split at hi
    · cases hi
    · rw [mem_singleton.1 hi]
  rw [hoffset]
  exact (pairwise_append.1 h).2.2 _ (mem_map_of_mem he) _ mem_cons_self

end Increasing

lemma getLast?_append_ending (es : List Emission) :
    (es.map (·.instruction) ++ ending es).getLast?.map (·.opcode) = some Opcode.ret := by
  unfold ending
  split
  case isTrue h =>
    obtain ⟨e, he, hret⟩ := (Option.any_eq_true _ _).1 h
    rw [append_nil, getLast?_map, he]
    exact congrArg some (eq_of_beq hret)
  case isFalse => simp

end Emission

namespace MethodSketch

variable (d : Declarations) (m : MethodSketch)

lemma body_run : (m.run d).body = (m.emissions d).map (·.instruction) ++ Emission.ending (m.emissions d) := by
  obtain ⟨hemitted, -, hoffset⟩ := BodyState.foldl_step d {} [] m.steps rfl
  rw [BodyState.body_eq, run, hemitted, hoffset, append_nil, reverse_reverse, head?_reverse, getLast?_map,
    Option.any_map]
  rfl

lemma points_run : (m.run d).points.reverse = (m.emissions d).filterMap Emission.point? := by
  obtain ⟨-, hpoints, -⟩ := BodyState.foldl_step d {} [] m.steps rfl
  rw [run, hpoints, append_nil, reverse_reverse]
  rfl

variable {d m} (h : Emission.size (m.emissions d) < 0x100000000)

include h

lemma pairwise_emissions : (Emission.offsets 0 (m.emissions d)).Pairwise (· < ·) :=
  (Emission.pairwise_offsets d 0 [] m.steps (by simpa [emissions] using h)).2

lemma determines_run : Emission.Determines (m.emissions d) (m.run d).body (m.run d).points.reverse := by
  have hpairwise := pairwise_emissions h
  rw [body_run, points_run]
  exact ⟨rfl, Emission.getLast?_append_ending _, Emission.pairwise_body hpairwise, rfl,
    Emission.pairwise_points hpairwise⟩

end MethodSketch

namespace ModuleSketch

/-- Every declared method is built with the body and the points that its emissions determine, and
look-ups in the symbols, which are never sorted, find what the last mark before each instruction
shows. -/
theorem exists_methodAt?_emissions {s : ModuleSketch} {i j : Nat} {m : MethodSketch} (h : s.method? i j = some m)
    (hsize : Emission.size (m.emissions s.declarations) < 0x100000000) :
    ∃ owner built points, s.buildSplit.1.methodAt? i j = some (owner, built) ∧ (built.token, points) ∈ s.allPoints ∧
      Emission.Determines (m.emissions s.declarations) built.body points ∧
      (s.IsNumbered → s.buildSplit.2.points built.token = points ∧
        (∀ e ∈ m.emissions s.declarations,
          s.buildSplit.2.pointAt? built.token e.offset = e.marks.getLast?.bind (·.shown? e.offset)) ∧
        ∀ i ∈ Emission.ending (m.emissions s.declarations), s.buildSplit.2.pointAt? built.token i.offset = none) := by
  obtain ⟨owner, hat, -⟩ := exists_methodAt? rfl h
  have hmem := mem_methods_of_method? h
  have hbody := MethodSketch.determines_run hsize
  refine ⟨owner, buildMethod s.declarations m, _, hat, List.mem_map_of_mem hmem, hbody, fun hnumbered => ?_⟩
  have hpoints : s.buildSplit.2.points (buildMethod s.declarations m).token = _ := points_buildSplit hnumbered hmem
  have hincreasing := MethodSketch.pairwise_emissions hsize
  have hlookup (offset : UInt32) : s.buildSplit.2.pointAt? (buildMethod s.declarations m).token offset =
      (((m.emissions s.declarations).filterMap Emission.point?).find? (·.offset = offset)).filter (!·.hidden) := by
    have hle := hbody.pairwise_points.imp UInt32.le_of_lt
    rw [← hpoints] at hle
    rw [Symbols.pointAt?_of_pairwise hle, Symbols.firstAt?, hpoints, hbody.points_eq]
  refine ⟨hpoints, fun e he => ?_, fun i hi => ?_⟩
  · rw [hlookup, Emission.find?_points hincreasing he, Emission.filter_point?]
  · rw [hlookup, Emission.find?_points_ending hincreasing hi, filter_none]

def marked : MethodSketch :=
  { name := "Run"
    steps := [.hidden, .line "Run.cs" 3, .op ⟨"nop"⟩, .op ⟨"nop"⟩, .line "Run.cs" 4, .hidden, .loadInt 1,
      .line "Run.cs" 5] }

theorem exists_methodAt?_emissions_marked :
    let s : ModuleSketch := { name := "M", types := [{ name := "T", methods := [marked] }] }
    s.method? 0 0 = some marked ∧ Emission.size (marked.emissions s.declarations) = 7 ∧
      ∃ owner built, s.buildSplit.1.methodAt? 0 0 = some (owner, built) ∧ built.body.map (·.offset) = [0, 1, 2, 7] ∧
        s.buildSplit.2.pointAt? built.token 0 = some { offset := 0, document := "Run.cs", line := 3 } ∧
        s.buildSplit.2.pointAt? built.token 1 = none ∧ s.buildSplit.2.pointAt? built.token 2 = none ∧
        s.buildSplit.2.pointAt? built.token 7 = none := by
  intro s
  have hsize : Emission.size (marked.emissions s.declarations) = 7 := by decide
  obtain ⟨owner, built, points, hat, -, hbody, hlookup⟩ :=
    exists_methodAt?_emissions (s := s) (i := 0) (j := 0) (m := marked) rfl (by rw [hsize]; decide)
  obtain ⟨-, hmarked, hending⟩ := hlookup ⟨by decide, by decide⟩
  refine ⟨rfl, hsize, owner, built, hat, ?_, ?_, ?_, ?_, ?_⟩
  · rw [hbody.body_eq]
    rfl
  · exact hmarked _ (.head _)
  · exact hmarked _ (.tail _ (.head _))
  · exact hmarked _ (.tail _ (.tail _ (.head _)))
  · exact hending _ (.head _)

end ModuleSketch

end BytecodeAudit
