import Mathlib.Data.List.TakeWhile
import BytecodeAudit.Bytecode.Sketch
import BytecodeAudit.Proofs.Bytecode.RoundTrip

/-!
# Built modules

What is built from a sketch has bytes if the sketch keeps the limits of the format,
`ModuleSketch.IsStorable`. Tokens count the methods in the order of their declarations, so no two
are equal (`IsNumbered.nodup_tokens`) and every method has its own entry in the symbols
(`IsStorable.symbols`).

A sketch refers to a method by the numbers of its type and of the method in it, under which the
module that is built has its methods (`ModuleSketch.exists_methodAt?`). References and the module
agree in the qualified names (`ModuleSketch.forall₂_fullName_types`).
-/

namespace BytecodeAudit

open List Option

open Pack

/-! ### Sketches with a written form -/

def CallTarget.IsStorable : CallTarget → Prop
  | .named m => m.IsStorable
  | .declared _ _ => True

def TypeTarget.IsStorable : TypeTarget → Prop
  | .named t => t.IsStorable
  | .declared _ => True

def BodyStep.IsStorable : BodyStep → Prop
  | .line document n => IsShortText document ∧ IsLong n
  | .hidden => True
  | .op opcode => IsShortText opcode.mnemonic
  | .call opcode target => IsShortText opcode.mnemonic ∧ target.IsStorable
  | .convert opcode target => IsShortText opcode.mnemonic ∧ target.IsStorable
  | .loadString s => IsShortText s
  | .loadInt n => IsLong n

/-- Whether a declared method has bytes. A return may follow its steps. -/
structure MethodSketch.IsStorable (m : MethodSketch) : Prop where
  name : IsShortText m.name
  params : IsShortList IsShortText m.params
  returns : IsShortText m.returns
  genericParams : IsShortList GenericParam.IsStorable m.genericParams
  length_lt : m.steps.length + 1 < 0x100000000
  steps : ∀ step ∈ m.steps, step.IsStorable

lemma MethodSketch.IsStorable.ofSteps {name : String} (hname : IsFieldName name) {order : Nat} {steps : List BodyStep}
    (hlength : steps.length + 1 < 0x100000000) (hsteps : ∀ step ∈ steps, step.IsStorable) :
    MethodSketch.IsStorable { order, name, steps } :=
  ⟨hname.isShortText, .nil, isShortText_empty, .nil, hlength, hsteps⟩

inductive TypeSketch.IsStorable : TypeSketch → Prop
  | mk {t : TypeSketch} (ns : IsShortText t.ns) (name : IsShortText t.name)
      (genericParams : IsShortList GenericParam.IsStorable t.genericParams)
      (methods : IsShortList MethodSketch.IsStorable t.methods) (length_lt : t.nested.length < 0x100000000)
      (nested : ∀ n ∈ t.nested, IsStorable n) : IsStorable t

/-- Whether the methods of a sketch are numbered by the order of their declarations, and are fewer
than there are tokens. -/
structure ModuleSketch.IsNumbered (s : ModuleSketch) : Prop where
  perm : (s.methods.map (·.order)).Perm (List.range s.methods.length)
  length_lt : s.methods.length < 0x100000000

/-- Whether a module to be built has bytes, with or without its symbols. -/
structure ModuleSketch.IsStorable (s : ModuleSketch) : Prop where
  name : IsShortText s.name
  version : IsShortText s.version
  runtimeVersion : IsShortText s.runtimeVersion
  types : IsShortList TypeSketch.IsStorable s.types
  numbered : s.IsNumbered

lemma ModuleSketch.IsStorable.ofMethods {name ns type : String} (hname : IsFieldName name) (hns : IsFieldName ns)
    (htype : IsFieldName type) {methods : List MethodSketch} (hlength : methods.length < 0x100000000)
    (horder : (methods.map (·.order)).Perm (List.range methods.length)) (hmethods : ∀ m ∈ methods, m.IsStorable) :
    ModuleSketch.IsStorable { name, types := [{ ns, name := type, methods }] } := by
  have hversion : IsFieldName "1.0.0" := by decide
  have hall : ModuleSketch.methods { name, types := [{ ns, name := type, methods }] } = methods :=
    List.append_nil methods
  refine ⟨hname.isShortText, hversion.isShortText, isShortText_empty, .singleton ?_, ?_, ?_⟩
  rotate_left
  · rwa [hall]
  · rwa [hall]
  exact .mk hns.isShortText htype.isShortText .nil ⟨hlength, hmethods⟩ (Nat.zero_lt_succ _) (nofun)

namespace Declarations

def AreStorable (d : Declarations) : Prop := ∀ e ∈ d.types, e.1.IsStorable ∧ ∀ m ∈ e.2, m.IsStorable

variable {d : Declarations}

lemma isStorable_default : TypeRef.IsStorable default :=
  .mk isShortText_empty isShortText_empty isShortText_empty nofun nofun

variable (h : d.AreStorable)
include h

lemma AreStorable.type (n : Nat) : (d.type n).IsStorable := by
  unfold Declarations.type
  split
  · rename_i t ms hn
    exact (h _ (mem_of_getElem? hn)).1
  · exact isStorable_default

lemma AreStorable.method (t m : Nat) : (d.method t m).IsStorable := by
  have hdefault : MethodRef.IsStorable default := ⟨isStorable_default, isShortText_empty, .nil, isShortText_empty⟩
  unfold Declarations.method
  split
  · rename_i ref ms ht
    rcases hm : ms[m]? with _ | ref'
    · exact hdefault
    · exact (h _ (mem_of_getElem? ht)).2 ref' (mem_of_getElem? hm)
  · exact hdefault

lemma AreStorable.callTarget {target : CallTarget} (htarget : target.IsStorable) :
    (d.callTarget target).IsStorable := by
  cases target with
  | named m => exact htarget
  | declared t m => exact h.method t m

lemma AreStorable.typeTarget {target : TypeTarget} (htarget : target.IsStorable) :
    (d.typeTarget target).IsStorable := by
  cases target with
  | named t => exact htarget
  | declared t => exact h.type t

end Declarations

namespace ModuleSketch

mutual

lemma areStorable_declareType {moduleName : String} (hmodule : IsShortText moduleName)
    {enclosing : Option TypeRef} (henclosing : ∀ ref, enclosing = some ref → ref.IsStorable) :
    ∀ {t : TypeSketch}, t.IsStorable → (Declarations.mk (declareType moduleName enclosing t)).AreStorable
  | ⟨ns, name, isValueType, genericParams, methods, nested⟩, .mk hns hname _ hmethods _ hnested => by
    have hns' : IsShortText (if enclosing.isSome then "" else ns) := by
      split
      · exact isShortText_empty
      · exact hns
    have href : TypeRef.IsStorable
        { ns := if enclosing.isSome then "" else ns, name, moduleName, isValueType, declaring := enclosing } :=
      .mk hns' hname hmodule henclosing nofun
    rw [declareType, Declarations.AreStorable, forall_mem_cons]
    refine ⟨⟨href, fun m hm => ?_⟩, ?_⟩
    · obtain ⟨method, hmethod, rfl⟩ := mem_map.1 hm
      have hstorable := hmethods.forall_mem method hmethod
      exact ⟨href, hstorable.name, hstorable.params, hstorable.returns⟩
    · exact areStorable_declareTypes hmodule (fun ref href' => some.inj href' ▸ href) hnested

lemma areStorable_declareTypes {moduleName : String} (hmodule : IsShortText moduleName)
    {enclosing : Option TypeRef} (henclosing : ∀ ref, enclosing = some ref → ref.IsStorable) :
    ∀ {ts : List TypeSketch}, (∀ t ∈ ts, t.IsStorable) →
      (Declarations.mk (declareTypes moduleName enclosing ts)).AreStorable
  | [], _ => nofun
  | t :: ts, h => by
    rw [forall_mem_cons] at h
    rw [declareTypes, Declarations.AreStorable, forall_mem_append]
    exact ⟨areStorable_declareType hmodule henclosing h.1, areStorable_declareTypes hmodule henclosing h.2⟩

end

lemma IsStorable.declarations {s : ModuleSketch} (h : s.IsStorable) : s.declarations.AreStorable := by
  have houtermost : ∀ ref, (none : Option TypeRef) = some ref → ref.IsStorable := nofun
  exact areStorable_declareTypes h.name houtermost h.types.forall_mem

end ModuleSketch

namespace BodyState

/-- What holds of a body after some steps: everything has bytes, and there are no more instructions
than steps and points than instructions. -/
structure IsStorable (steps : Nat) (s : BodyState) : Prop where
  pending : ∀ p, s.pending = some p → p.IsStorable
  points : ∀ p ∈ s.points, p.IsStorable
  emitted : ∀ i ∈ s.emitted, i.IsStorable
  points_le : s.points.length ≤ s.emitted.length
  emitted_le : s.emitted.length ≤ steps

variable {d : Declarations} {n : Nat} {s : BodyState}

lemma IsStorable.emit (h : s.IsStorable n) {i : Instruction} (hi : i.IsStorable) : (s.emit i).IsStorable (n + 1) := by
  have hemitted : ∀ j ∈ (s.emit i).emitted, j.IsStorable :=
    forall_mem_cons.2 ⟨⟨hi.opcode, hi.method, hi.typeRef, hi.text, hi.int⟩, h.emitted⟩
  have hle := h.points_le
  have hpending := h.pending
  unfold BodyState.emit at hemitted ⊢
  cases hp : s.pending with
  | none =>
    rw [hp] at hemitted
    exact ⟨nofun, h.points, hemitted, Nat.le_succ_of_le hle, Nat.succ_le_succ h.emitted_le⟩
  | some p =>
    rw [hp] at hemitted
    obtain ⟨document, line, column⟩ := hpending p hp
    exact ⟨nofun, forall_mem_cons.2 ⟨⟨document, line, column⟩, h.points⟩, hemitted, Nat.succ_le_succ hle,
      Nat.succ_le_succ h.emitted_le⟩

lemma IsStorable.withPending (h : s.IsStorable n) {p : SequencePoint} (hp : p.IsStorable) :
    IsStorable (n + 1) { s with pending := some p } where
  pending _ hq := some.inj hq ▸ hp
  points := h.points
  emitted := h.emitted
  points_le := h.points_le
  emitted_le := Nat.le_succ_of_le h.emitted_le

lemma IsStorable.step (hd : d.AreStorable) (h : s.IsStorable n) {step : BodyStep} (hstep : step.IsStorable) :
    (BodyState.step d s step).IsStorable (n + 1) := by
  have hzero : IsLong 0 := ⟨by decide, by decide⟩
  have hstring : IsShortText Opcode.loadString.mnemonic := IsFieldName.isShortText (by decide)
  have hint : IsShortText Opcode.loadInt.mnemonic := IsFieldName.isShortText (by decide)
  cases step with
  | line document line => exact h.withPending ⟨hstep.1, hstep.2, hzero⟩
  | hidden => exact h.withPending ⟨isShortText_empty, hzero, hzero⟩
  | op opcode => exact h.emit ⟨hstep, nofun, nofun, isShortText_empty, hzero⟩
  | call opcode target =>
    exact h.emit ⟨hstep.1, fun m hm => some.inj hm ▸ hd.callTarget hstep.2, nofun, isShortText_empty, hzero⟩
  | convert opcode target =>
    exact h.emit ⟨hstep.1, nofun, fun t ht => some.inj ht ▸ hd.typeTarget hstep.2, isShortText_empty, hzero⟩
  | loadString text => exact h.emit ⟨hstring, nofun, nofun, hstep, hzero⟩
  | loadInt int => exact h.emit ⟨hint, nofun, nofun, isShortText_empty, hstep⟩

lemma IsStorable.foldl (hd : d.AreStorable) (h : s.IsStorable n) {steps : List BodyStep}
    (hsteps : ∀ step ∈ steps, step.IsStorable) :
    (steps.foldl (BodyState.step d) s).IsStorable (n + steps.length) := by
  induction steps generalizing s n with
  | nil => exact h
  | cons step steps ih =>
    rw [forall_mem_cons] at hsteps
    have hrest := ih (h.step hd hsteps.1) hsteps.2
    rwa [length_cons, Nat.add_comm steps.length, ← Nat.add_assoc]

lemma IsStorable.body (h : s.IsStorable n) (hn : n + 1 < 0x100000000) :
    IsShortList Instruction.IsStorable s.body := by
  have hle := h.emitted_le
  have hzero : IsLong 0 := ⟨by decide, by decide⟩
  have hmnemonic : IsShortText Opcode.ret.mnemonic := IsFieldName.isShortText (by decide)
  have hret : Instruction.IsStorable { offset := s.offset, opcode := Opcode.ret } :=
    ⟨hmnemonic, nofun, nofun, isShortText_empty, hzero⟩
  have hreverse : ∀ i ∈ s.emitted.reverse, i.IsStorable := fun i hi => h.emitted i (mem_reverse.1 hi)
  unfold BodyState.body
  split
  · exact .singleton hret
  split
  · exact ⟨by rw [length_reverse]; omega, hreverse⟩
  · refine ⟨by rw [length_append, length_reverse, length_singleton]; omega, ?_⟩
    rw [forall_mem_append]
    exact ⟨hreverse, fun i hi => mem_singleton.1 hi ▸ hret⟩

end BodyState

lemma MethodSketch.IsStorable.run {d : Declarations} (hd : d.AreStorable) {m : MethodSketch} (h : m.IsStorable) :
    (m.run d).IsStorable m.steps.length := by
  have hempty : BodyState.IsStorable 0 {} := ⟨nofun, nofun, nofun, Nat.le_refl 0, Nat.le_refl 0⟩
  have hrun := hempty.foldl hd h.steps
  rwa [Nat.zero_add] at hrun

namespace ModuleSketch

variable {s : ModuleSketch}

/-- Tokens do not come round before all are used. -/
lemma IsNumbered.nodup_tokens (h : s.IsNumbered) : (s.methods.map (·.token)).Nodup := by
  have hnodup : ((List.range s.methods.length).map fun i => firstToken + UInt32.ofNat i).Nodup := by
    refine List.Nodup.map_on (fun i hi j hj heq => ?_) nodup_range
    rw [mem_range] at hi hj
    have hlength := h.length_lt
    have hofNat : UInt32.ofNat i = UInt32.ofNat j := (UInt32.add_right_inj firstToken).1 heq
    have hnat := congrArg UInt32.toNat hofNat
    rw [UInt32.toNat_ofNat', UInt32.toNat_ofNat'] at hnat
    omega
  have hperm := h.perm.map fun i => firstToken + UInt32.ofNat i
  rw [List.map_map] at hperm
  exact hperm.nodup_iff.2 hnodup

/-! ### Types and points -/

lemma flatAll_eq_flatMap (ts : List TypeSketch) : TypeSketch.flatAll ts = ts.flatMap TypeSketch.flat := by
  induction ts with
  | nil => rfl
  | cons t ts ih => rw [TypeSketch.flatAll, ih, flatMap_cons]

lemma isStorable_of_mem_flat {t : TypeSketch} (h : t.IsStorable) :
    ∀ u ∈ t.flat, u.IsStorable := by
  induction h with
  | @mk t ns name genericParams methods length_lt nested ih =>
    have hflat : t.flat = t :: t.nested.flatMap TypeSketch.flat := by
      rw [← flatAll_eq_flatMap]
      cases t
      rfl
    rw [hflat, forall_mem_cons]
    refine ⟨.mk ns name genericParams methods length_lt nested, fun u hu => ?_⟩
    obtain ⟨n, hn, hu⟩ := mem_flatMap.1 hu
    exact ih n hn u hu

lemma IsStorable.method (h : s.IsStorable) : ∀ m ∈ s.methods, m.IsStorable := by
  intro m hm
  obtain ⟨u, hu, hm⟩ := mem_flatMap.1 hm
  rw [flatAll_eq_flatMap] at hu
  obtain ⟨t, ht, hu⟩ := mem_flatMap.1 hu
  cases isStorable_of_mem_flat (h.types.forall_mem t ht) u hu with
  | mk _ _ _ hmethods _ _ => exact hmethods.forall_mem m hm

variable (d : Declarations)

lemma buildTypes_eq_map (isNested : Bool) (ts : List TypeSketch) :
    buildTypes d isNested ts = ts.map (buildType d isNested) := by
  induction ts with
  | nil => rfl
  | cons t ts ih => rw [buildTypes, ih, map_cons]

variable {d} (hd : d.AreStorable)
include hd

lemma isStorable_buildMethod {m : MethodSketch} (h : m.IsStorable) : (buildMethod d m).IsStorable :=
  ⟨h.name, h.params, h.returns, h.genericParams, (h.run hd).body h.length_lt⟩

lemma isShortList_points {m : MethodSketch} (h : m.IsStorable) :
    IsShortList SequencePoint.IsStorable (m.run d).points.reverse := by
  have hlength := h.length_lt
  have hrun := h.run hd
  have hle := hrun.points_le.trans hrun.emitted_le
  refine ⟨?_, fun p hp => hrun.points p (mem_reverse.1 hp)⟩
  rw [length_reverse]
  omega

lemma isStorable_buildType {t : TypeSketch} (h : t.IsStorable) (isNested : Bool) :
    (buildType d isNested t).IsStorable := by
  induction h generalizing isNested with
  | @mk t ns name genericParams methods length_lt nested ih =>
    have hns : IsShortText (if isNested then "" else t.ns) := by
      split
      · exact isShortText_empty
      · exact ns
    have hbuild : buildType d isNested t =
        { ns := if isNested then "" else t.ns, name := t.name, isValueType := t.isValueType
          genericParams := t.genericParams, methods := t.methods.map (buildMethod d)
          nested := t.nested.map (buildType d true) } := by
      rw [← buildTypes_eq_map]
      cases t
      rfl
    rw [hbuild]
    refine .mk hns name genericParams ⟨by rw [length_map]; exact methods.length_lt, forall_mem_map.2 fun m hm => ?_⟩
      (by rwa [length_map]) (forall_mem_map.2 fun n hn => ih n hn true)
    exact isStorable_buildMethod hd (methods.forall_mem m hm)

omit hd

/-! ### Modules and symbols -/

lemma types_buildSplit (s : ModuleSketch) : s.buildSplit.1.types =
    if s.types.isEmpty then none else some (Module.linkTypes none (buildTypes s.declarations false s.types)) := by
  simp only [buildSplit, Module.link, buildTypes_eq_map, isEmpty_map]
  split <;> rfl

lemma link_buildSplit (s : ModuleSketch) (symbols : Option Symbols) :
    { s.buildSplit.1 with symbols }.link = { s.buildSplit.1 with symbols } :=
  congrArg (fun m : Module => { m with symbols }) (Module.link_link _)

lemma nodup_entries_buildSplit (h : s.IsNumbered) : (s.buildSplit.2.entries.map Prod.fst).Nodup := by
  have hentries : s.buildSplit.2.entries.map Prod.fst =
      (s.methods.filter fun m => !(m.run s.declarations).points.isEmpty).map (·.token) := List.map_map
  rw [hentries]
  exact h.nodup_tokens.sublist (filter_sublist.map _)

lemma IsStorable.symbols (h : s.IsStorable) : s.buildSplit.2.IsStorable where
  moduleName := h.name
  length_lt := by
    rw [buildSplit, Symbols.entries, getD_some, length_map]
    exact Nat.lt_of_le_of_lt (length_filter_le _ _) h.numbered.length_lt
  nodup := nodup_entries_buildSplit h.numbered
  points e he ps hps := by
    obtain ⟨m, hm, rfl⟩ := List.mem_map.1 he
    obtain rfl := Option.some.inj hps
    exact isShortList_points h.declarations (h.method m (mem_of_mem_filter hm))

lemma IsStorable.buildSplit (h : s.IsStorable) : s.buildSplit.1.IsStorable where
  formatVersion := show IsLong 1 from ⟨by decide, by decide⟩
  name := h.name
  version := h.version
  runtimeVersion := h.runtimeVersion
  types ts hts := by
    rw [types_buildSplit] at hts
    obtain ⟨-, heq⟩ := ite_none_left_eq_some.1 hts
    obtain rfl := some.inj heq
    rw [Module.linkTypes_eq_map, buildTypes_eq_map]
    refine ⟨by rw [length_map, length_map]; exact h.types.length_lt, ?_⟩
    rw [List.map_map, List.forall_mem_map]
    exact fun t ht => Module.isStorable_linkType (isStorable_buildType h.declarations (h.types.forall_mem t ht) false) none
  symbols := nofun

lemma build_eq (s : ModuleSketch) : s.build = { s.buildSplit.1 with
      symbols := if s.buildSplit.2.isEmpty then none else some s.buildSplit.2 } := by
  show (if s.buildSplit.2.isEmpty then s.buildSplit.1 else { s.buildSplit.1 with symbols := some s.buildSplit.2 }) = _
  split <;> rfl

lemma IsStorable.build (h : s.IsStorable) : s.build.IsStorable := by
  have hsplit := h.buildSplit
  rw [build_eq]
  refine ⟨hsplit.formatVersion, hsplit.name, hsplit.version, hsplit.runtimeVersion, hsplit.types, fun t ht => ?_⟩
  obtain ⟨-, heq⟩ := ite_none_left_eq_some.1 ht
  exact some.inj heq ▸ h.symbols

end ModuleSketch

lemma exists_getElem?_of_forall₂ {α β : Type} {R : α → β → Prop} {xs : List α} {ys : List β}
    (h : List.Forall₂ R xs ys) {i : Nat} {x : α} (hx : xs[i]? = some x) : ∃ y, ys[i]? = some y ∧ R x y := by
  induction h generalizing i with
  | nil => cases hx
  | cons hxy _ ih =>
    cases i with
    | zero => exact ⟨_, rfl, some.inj hx ▸ hxy⟩
    | succ i => exact ih hx

/-! ### Numbers -/

def ModuleSketch.method? (s : ModuleSketch) (type method : Nat) : Option MethodSketch :=
  (TypeSketch.flatAll s.types)[type]?.bind (·.methods[method]?)

def Module.methodAt? (m : Module) (type method : Nat) : Option (TypeRef × MethodDef) :=
  m.walk[type]?.bind fun t => t.methods[method]?.map (t.ref, ·)

/-! ### Names -/

lemma TypeRef.fullName_eq (t : TypeRef) : t.fullName = match t.declaring with
    | some d => d.fullName ++ "/" ++ t.name
    | none => if t.ns == "" then t.name else t.ns ++ "." ++ t.name := by
  obtain ⟨ns, name, moduleName, isValueType, declaring, generic⟩ := t
  cases declaring <;> rw [fullName]

lemma TypeRef.fullName_withModule (t : TypeRef) (moduleName : String) :
    { t with moduleName }.fullName = t.fullName := by
  rw [fullName_eq, fullName_eq t]

lemma MethodRef.fullName_congr {m m' : MethodRef} (hdeclaring : m.declaring.fullName = m'.declaring.fullName)
    (hname : m.name = m'.name) (hparams : m.params = m'.params) : m.fullName = m'.fullName := by
  rw [fullName, fullName, hdeclaring, hname, hparams]

namespace BodyState

variable (d : Declarations) (s : BodyState)

lemma emitted_suffix_step (step : BodyStep) : s.emitted <:+ (BodyState.step d s step).emitted := by
  cases step with
  | line | hidden => exact suffix_rfl
  | op | call | convert | loadString | loadInt => exact suffix_cons _ _

lemma emitted_suffix_foldl (steps : List BodyStep) : s.emitted <:+ (steps.foldl (BodyState.step d) s).emitted := by
  induction steps generalizing s with
  | nil => exact suffix_rfl
  | cons step steps ih => exact (emitted_suffix_step d s step).trans (ih _)

lemma mem_body_of_mem_emitted {i : Instruction} (h : i ∈ s.emitted) : i ∈ s.body := by
  rw [body]
  split
  · rename_i hnil
    rw [hnil] at h
    cases h
  split
  · exact mem_reverse.2 h
  · exact mem_append_left _ (mem_reverse.2 h)

end BodyState

lemma MethodSketch.exists_mem_body_of_call (d : Declarations) {m : MethodSketch} {opcode : Opcode}
    {target : CallTarget} (h : .call opcode target ∈ m.steps) :
    ∃ i ∈ (m.run d).body, i.opcode = opcode ∧ i.method = some (d.callTarget target) := by
  obtain ⟨before, after, hsteps⟩ := append_of_mem h
  let s := before.foldl (BodyState.step d) {}
  let i : Instruction := { opcode, method := some (d.callTarget target), offset := s.offset }
  have hemitted : i ∈ (m.run d).emitted := by
    rw [run, hsteps, foldl_append, foldl_cons]
    exact (BodyState.emitted_suffix_foldl d (s.step d (.call opcode target)) after).subset mem_cons_self
  exact ⟨i, BodyState.mem_body_of_mem_emitted _ hemitted, rfl, rfl⟩

namespace ModuleSketch

section Names

variable (d : Declarations) (moduleName : String)

mutual

lemma forall₂_fullName_type {outer outer' : Option TypeRef} (h : outer.map (·.fullName) = outer'.map (·.fullName)) :
    ∀ t : TypeSketch, List.Forall₂ (fun w r => w.ref.fullName = r.1.fullName)
      (Module.walkType (Module.linkType outer (buildType d outer.isSome t))) (declareType moduleName outer' t)
  | ⟨ns, name, isValueType, genericParams, methods, nested⟩ => by
    have hname : TypeRef.fullName { ns := if outer.isSome then "" else ns, name, isValueType, declaring := outer } =
        TypeRef.fullName
          { ns := if outer'.isSome then "" else ns, name, moduleName, isValueType, declaring := outer' } := by
      rw [TypeRef.fullName_eq, TypeRef.fullName_eq]
      cases outer with
      | none =>
        obtain rfl := map_eq_none_iff.1 h.symm
        rfl
      | some ref =>
        obtain ⟨ref', rfl, href⟩ := map_eq_some_iff.1 h.symm
        dsimp only
        rw [href]
    simp only [buildType, Module.linkType, Module.walkType, declareType]
    refine .cons hname (forall₂_fullName_types (some _) (some _) ?_ nested)
    exact congrArg some hname

lemma forall₂_fullName_types (outer outer' : Option TypeRef)
    (h : outer.map (·.fullName) = outer'.map (·.fullName)) :
    ∀ ts : List TypeSketch, List.Forall₂ (fun w r => w.ref.fullName = r.1.fullName)
      (Module.walkTypes (Module.linkTypes outer (buildTypes d outer.isSome ts))) (declareTypes moduleName outer' ts)
  | [] => .nil
  | t :: ts => by
    simp only [buildTypes, Module.linkTypes, Module.walkTypes, declareTypes]
    exact rel_append (forall₂_fullName_type h t) (forall₂_fullName_types outer outer' h ts)

end

end Names

/-! ### Methods -/

def refOf (owner : TypeRef) (m : MethodSketch) : MethodRef :=
  { declaring := owner, name := m.name, params := m.params, returns := m.returns }

mutual

lemma forall₂_declareType (moduleName : String) (outer : Option TypeRef) :
    ∀ t : TypeSketch, List.Forall₂ (fun t r => r.2 = t.methods.map (refOf r.1)) t.flat (declareType moduleName outer t)
  | ⟨ns, name, isValueType, genericParams, methods, nested⟩ => by
    simp only [TypeSketch.flat, declareType]
    exact .cons rfl (forall₂_declareTypes moduleName (some _) nested)

lemma forall₂_declareTypes (moduleName : String) (outer : Option TypeRef) :
    ∀ ts : List TypeSketch, List.Forall₂ (fun t r => r.2 = t.methods.map (refOf r.1)) (TypeSketch.flatAll ts)
      (declareTypes moduleName outer ts)
  | [] => .nil
  | t :: ts => by
    simp only [TypeSketch.flatAll, declareTypes]
    exact rel_append (forall₂_declareType moduleName outer t) (forall₂_declareTypes moduleName outer ts)

end

mutual

lemma methods_walkType (d : Declarations) (isNested : Bool) (outer : Option TypeRef) : ∀ t : TypeSketch,
    (Module.walkType (Module.linkType outer (buildType d isNested t))).map (·.methods) =
      t.flat.map (·.methods.map (buildMethod d))
  | ⟨ns, name, isValueType, genericParams, methods, nested⟩ => by
    simp only [TypeSketch.flat, buildType, Module.linkType, Module.walkType, map_cons, methods_walkTypes]

lemma methods_walkTypes (d : Declarations) (isNested : Bool) (outer : Option TypeRef) : ∀ ts : List TypeSketch,
    (Module.walkTypes (Module.linkTypes outer (buildTypes d isNested ts))).map (·.methods) =
      (TypeSketch.flatAll ts).map (·.methods.map (buildMethod d))
  | [] => rfl
  | t :: ts => by
    simp only [TypeSketch.flatAll, buildTypes, Module.linkTypes, Module.walkTypes, List.map_append, methods_walkType,
      methods_walkTypes]

end

/-! ### Built modules -/

/-- The points of every declared method under its token. -/
def allPoints (s : ModuleSketch) : List (UInt32 × List SequencePoint) :=
  s.methods.map fun m => (m.token, (m.run s.declarations).points.reverse)

variable {s : ModuleSketch} {i j : Nat} {declared : MethodSketch}

lemma mem_methods_of_method? (h : s.method? i j = some declared) : declared ∈ s.methods := by
  obtain ⟨t, ht, hmethod⟩ := bind_eq_some_iff.1 h
  exact mem_flatMap.2 ⟨t, mem_of_getElem? ht, mem_of_getElem? hmethod⟩

lemma walk_eq {m : Module} (h : m.types = s.buildSplit.1.types) :
    m.walk = Module.walkTypes (Module.linkTypes none (buildTypes s.declarations false s.types)) := by
  rw [Module.walk, h, types_buildSplit]
  split
  · rename_i hempty
    rw [isEmpty_iff.1 hempty]
    rfl
  · rfl

lemma points_buildSplit (hs : s.IsNumbered) (h : declared ∈ s.methods) :
    s.buildSplit.2.points declared.token = (declared.run s.declarations).points.reverse := by
  by_cases hempty : (declared.run s.declarations).points = []
  · -- the tokens are different, so no other method has an entry under this one
    have hnone : s.buildSplit.2.entries.find? (·.1 == declared.token) = none := by
      rw [List.find?_eq_none]
      intro e he heq
      obtain ⟨m, hm, rfl⟩ := List.mem_map.1 he
      obtain ⟨hmem, hpoints⟩ := mem_filter.1 hm
      obtain rfl := inj_on_of_nodup_map hs.nodup_tokens hmem h (beq_iff_eq.1 heq)
      simp [hempty] at hpoints
    rw [Symbols.points, hnone, hempty]
    rfl
  · have hentry : (declared.token, some (declared.run s.declarations).points.reverse) ∈ s.buildSplit.2.entries :=
      List.mem_map.2 ⟨declared, mem_filter.2 ⟨h, by simpa using hempty⟩, rfl⟩
    rw [Symbols.points, (Symbols.find?_eq_some_iff (nodup_entries_buildSplit hs)).2 ⟨hentry, rfl⟩]
    rfl

lemma exists_methodAt? {m : Module} (h : m.types = s.buildSplit.1.types) (hdeclared : s.method? i j = some declared) :
    ∃ owner, m.methodAt? i j = some (owner, buildMethod s.declarations declared) ∧
      ((buildMethod s.declarations declared).ref owner).fullName = (s.declarations.method i j).fullName := by
  obtain ⟨t, ht, hmethod⟩ := bind_eq_some_iff.1 hdeclared
  obtain ⟨r, hr, hrefs⟩ := exists_getElem?_of_forall₂ (forall₂_declareTypes s.name none s.types) ht
  obtain ⟨w, hw, hname⟩ := exists_getElem?_of_forall₂
    (forall₂_fullName_types s.declarations s.name none none rfl s.types).flip hr
  rw [isSome_none] at hw
  have hbuilt : w.methods = t.methods.map (buildMethod s.declarations) := by
    have hmethods := congrArg (·[i]?) (methods_walkTypes s.declarations false none s.types)
    simp only [getElem?_map, ht, hw, map_some] at hmethods
    exact some.inj hmethods
  have href : s.declarations.method i j = refOf r.1 declared := by
    simp only [Declarations.method, declarations, hr, hrefs, getElem?_map, hmethod, map_some, getD_some]
  refine ⟨w.ref, ?_, ?_⟩
  · rw [Module.methodAt?, walk_eq h, hw]
    simp only [bind_some, hbuilt, getElem?_map, hmethod, map_some]
  · rw [href]
    exact MethodRef.fullName_congr hname rfl rfl

end ModuleSketch

/-! ### Names of types

A qualified name is cut at its slashes, and its outermost part at the last dot. Printing puts the
slashes back (`TypeRef.fullName_foldl_nest`), but writes no dot after an empty namespace. So a name
is printed as it was read unless the last dot of its outermost part stands first. -/

namespace TypeRef

open List

/-- The part of a qualified name that names the outermost type. -/
def outermost (s : String) : List Char := s.toList.takeWhile (· ≠ '/')

/-- Whether a text is what stands before the last dot of another. -/
def IsBeforeLastDot (ns cs : List Char) : Prop := ∃ name, '.' ∉ name ∧ cs = ns ++ '.' :: name

variable {c : Char} {cs front back : List Char}

lemma splitAtLast?_append (h : c ∉ back) : splitAtLast? c (front ++ c :: back) = some (front, back) := by
  have hback : ∀ x ∈ back.reverse, x != c := fun x hx => bne_iff_ne.2 fun hc => h (hc ▸ mem_reverse.1 hx)
  have hreverse : (front ++ c :: back).reverse = back.reverse ++ c :: front.reverse := by simp
  rw [splitAtLast?, hreverse, dropWhile_append_of_pos hback, takeWhile_append_of_pos hback]
  simp

lemma splitAtLast?_cases (c : Char) (cs : List Char) : c ∉ cs ∧ splitAtLast? c cs = none ∨
    ∃ front back, c ∉ back ∧ cs = front ++ c :: back ∧ splitAtLast? c cs = some (front, back) := by
  by_cases h : c ∈ cs
  · obtain ⟨back, front, hcs, hback⟩ := eq_append_cons_of_mem (mem_reverse.2 h)
    have hcs' : cs = front.reverse ++ c :: back.reverse := by simpa using congrArg reverse hcs
    have hback' : c ∉ back.reverse := mt mem_reverse.1 hback
    exact .inr ⟨_, _, hback', hcs', by rw [hcs', splitAtLast?_append hback']⟩
  · have hnil : cs.reverse.dropWhile (· != c) = [] :=
      List.dropWhile_eq_nil_iff.2 fun x hx => bne_iff_ne.2 fun hc => h (hc ▸ mem_reverse.1 hx)
    exact .inl ⟨h, by rw [splitAtLast?, hnil]⟩

lemma IsBeforeLastDot.eq {ns ns' : List Char} (h : IsBeforeLastDot ns cs) (h' : IsBeforeLastDot ns' cs) : ns = ns' := by
  obtain ⟨name, hname, rfl⟩ := h
  obtain ⟨name', hname', heq⟩ := h'
  have hsplit := congrArg (splitAtLast? '.') heq
  rw [splitAtLast?_append hname, splitAtLast?_append hname'] at hsplit
  exact (Prod.mk.inj (Option.some.inj hsplit)).1

/-- A name without slashes. -/
lemma ofSimpleName_spec (cs : List Char) : ((ofSimpleName cs).fullName = String.ofList cs ↔ ¬IsBeforeLastDot [] cs) ∧
      ∀ ns : String, (ofSimpleName cs).topNamespace = ns ↔ IsBeforeLastDot ns.toList cs ∨ '.' ∉ cs ∧ ns = "" := by
  rw [ofSimpleName]
  obtain ⟨hdot, hsplit⟩ | ⟨front, back, hback, hcs, hsplit⟩ := splitAtLast?_cases '.' cs <;> rw [hsplit]
  · have hnone : ∀ ns, ¬IsBeforeLastDot ns cs := by
      rintro ns ⟨name, -, rfl⟩
      exact hdot (by simp)
    simp [fullName_eq, topNamespace, hnone, hdot, eq_comm]
  · have hfront : IsBeforeLastDot front cs := ⟨back, hback, hcs⟩
    have hbefore : ∀ ns, IsBeforeLastDot ns cs ↔ ns = front := fun ns => ⟨fun h => h.eq hfront, fun h => h ▸ hfront⟩
    have hdot : '.' ∈ cs := by simp [hcs]
    refine ⟨?_, fun ns => ?_⟩
    · simp only [fullName_eq, hbefore]
      cases front <;> simp [hcs, ← String.toList_inj]
    · rw [topNamespace, hbefore, or_iff_left fun h => h.1 hdot, ← String.toList_inj, String.toList_ofList, eq_comm]

lemma exists_nameParts_eq (cs : List Char) : ∃ inner, nameParts cs = (cs.takeWhile (· ≠ '/'), inner) ∧
    cs.takeWhile (· ≠ '/') ++ inner.flatMap ('/' :: ·) = cs := by
  fun_induction nameParts cs with
  | case1 => exact ⟨[], rfl, rfl⟩
  | case2 cs first rest hparts ih | case3 c cs hc first rest hparts ih =>
    obtain ⟨inner, hinner, hcs⟩ := ih
    obtain ⟨rfl, rfl⟩ := Prod.mk.inj (hparts.symm.trans hinner)
    simp_all

lemma fullName_foldl_nest (names : List (List Char)) (t : TypeRef) :
    let nested := names.foldl (fun t name => { name := String.ofList name, declaring := some t }) t
    nested.fullName = t.fullName ++ String.ofList (names.flatMap ('/' :: ·)) ∧ nested.topNamespace = t.topNamespace := by
  induction names generalizing t with
  | nil => simp
  | cons name names ih =>
    refine ⟨(ih _).1.trans ?_, (ih _).2⟩
    simp [fullName, ← String.toList_inj]

/-- A qualified name is printed as it was read exactly if the last dot of its outermost part does
not stand first. The namespace is what stands before that dot, however deep the name nests. -/
theorem fullName_and_topNamespace_ofName (s : String) :
    ((ofName s).fullName = s ↔ ¬IsBeforeLastDot [] (outermost s)) ∧
      ∀ ns : String, (ofName s).topNamespace = ns ↔
        IsBeforeLastDot ns.toList (outermost s) ∨ '.' ∉ outermost s ∧ ns = "" := by
  obtain ⟨inner, hparts, hcs⟩ := exists_nameParts_eq s.toList
  rw [← outermost] at hparts hcs
  obtain ⟨hname, hns⟩ := fullName_foldl_nest inner (ofSimpleName (outermost s))
  obtain ⟨hsimple, htop⟩ := ofSimpleName_spec (outermost s)
  have hs : s = String.ofList (outermost s) ++ String.ofList (inner.flatMap ('/' :: ·)) := by
    rw [← String.ofList_append, hcs, String.ofList_toList]
  refine ⟨?_, fun ns => ?_⟩
  · rw [ofName, hparts, hname, ← hsimple]
    nth_rewrite 2 [hs]
    exact String.append_left_inj _
  · rw [ofName, hparts, hns, htop]

end TypeRef

end BytecodeAudit
