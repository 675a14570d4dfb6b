import Mathlib.Data.List.Nodup
import BytecodeAudit.Bytecode.Codec
import BytecodeAudit.Proofs.Pack.Records

/-!
# Modules read back

Reading the bytes of a module gives the module back. Those with bytes have texts and lists that are
short enough for the format, and machine integers as numbers (`Module.IsStorable`).
-/

namespace BytecodeAudit

open List

open Pack

structure IsShortList {α : Type} (P : α → Prop) (xs : List α) : Prop where
  length_lt : xs.length < 0x100000000
  forall_mem : ∀ x ∈ xs, P x

namespace IsShortList

variable {α : Type} {P : α → Prop}

lemma nil : IsShortList P [] := ⟨Nat.zero_lt_succ _, nofun⟩

lemma singleton {x : α} (h : P x) : IsShortList P [x] :=
  ⟨show 1 < 0x100000000 by decide, fun _ hy => mem_singleton.1 hy ▸ h⟩

lemma isPlain {xs : List α} {toPack : α → Pack} (h : IsShortList P xs) (hplain : ∀ x, P x → IsPlain False (toPack x)) :
    IsPlain False (.array (xs.map toPack)) := by
  refine isPlain_array (by rw [length_map]; exact h.length_lt) (forall_mem_map.2 fun x hx => ?_)
  exact hplain x (h.forall_mem x hx)

end IsShortList

attribute [local simp] Pack.text? Pack.true? Pack.nonempty?

/-! ### References -/

mutual

inductive TypeRef.IsStorable : TypeRef → Prop
  | mk {t : TypeRef} (ns : IsShortText t.ns) (name : IsShortText t.name)
      (moduleName : IsShortText t.moduleName) (declaring : ∀ d, t.declaring = some d → TypeRef.IsStorable d)
      (generic : ∀ g, t.generic = some g → GenericParam.IsStorable g) : TypeRef.IsStorable t

inductive GenericParam.IsStorable : GenericParam → Prop
  | mk {g : GenericParam} (name : IsShortText g.name) (length_lt : g.constraints.length < 0x100000000)
      (constraints : ∀ t ∈ g.constraints, TypeRef.IsStorable t) : GenericParam.IsStorable g

end

lemma typeRefsToPack_eq_map (ts : List TypeRef) : typeRefsToPack ts = ts.map TypeRef.toPack := by
  induction ts with
  | nil => rfl
  | cons t ts ih => rw [typeRefsToPack, ih, map_cons]

lemma TypeRef.toPack_eq (t : TypeRef) : t.toPack = .record [("ns", Pack.text? t.ns), ("name", some (.text t.name)),
      ("module", Pack.text? t.moduleName), ("value_type", Pack.true? t.isValueType),
      ("declaring", t.declaring.map TypeRef.toPack), ("generic_param", t.generic.map GenericParam.toPack)] := by
  obtain ⟨ns, name, moduleName, isValueType, _ | d, _ | g⟩ := t <;> rfl

lemma GenericParam.toPack_eq (g : GenericParam) :
    g.toPack = .record [("name", some (.text g.name)), ("class", Pack.true? g.mustBeClass),
      ("struct", Pack.true? g.mustBeStruct),
      ("constraints", Pack.nonempty? (g.constraints.map TypeRef.toPack))] := by
  rw [← typeRefsToPack_eq_map]
  cases g
  rfl

lemma TypeRef.areFieldNames : AreFieldNames TypeRef.packFields := ⟨by decide, by decide, by decide⟩

lemma GenericParam.areFieldNames : AreFieldNames GenericParam.packFields :=
  ⟨by decide, by decide, by decide⟩

mutual

lemma TypeRef.isPlain_toPack {t : TypeRef} : t.IsStorable → IsPlain False t.toPack
  | .mk ns name moduleName declaring generic => by
    rw [TypeRef.toPack_eq]
    refine isPlain_record TypeRef.areFieldNames rfl ?_
    simpa [ns, name, moduleName] using
      ⟨fun d hd => TypeRef.isPlain_toPack (declaring d hd), fun g hg => GenericParam.isPlain_toPack (generic g hg)⟩

lemma GenericParam.isPlain_toPack {g : GenericParam} : g.IsStorable → IsPlain False g.toPack
  | .mk name length_lt constraints => by
    rw [GenericParam.toPack_eq]
    refine isPlain_record GenericParam.areFieldNames rfl ?_
    have hconstraints := fun t ht => TypeRef.isPlain_toPack (constraints t ht)
    simp [name, IsShortList.isPlain ⟨length_lt, hconstraints⟩ fun _ => id]

end

lemma TypeRef.toPack_asRead_ne_nil (t : TypeRef) : t.toPack.asRead ≠ .nil := by
  rw [TypeRef.toPack_eq]
  exact record_asRead_ne_nil _

lemma GenericParam.toPack_asRead_ne_nil (g : GenericParam) : g.toPack.asRead ≠ .nil := by
  rw [GenericParam.toPack_eq]
  exact record_asRead_ne_nil _

mutual

lemma TypeRef.ofPack_toPack {t : TypeRef} : t.IsStorable → ∀ {fuel : Nat}, t.toPack.asRead.depth ≤ fuel →
      TypeRef.ofPack fuel { name := "" } t.toPack.asRead = some t
  | .mk ns name moduleName declaring generic, fuel, hfuel => by
    rw [TypeRef.toPack_eq] at hfuel ⊢
    obtain ⟨n, rfl, hdepth⟩ := exists_fuel_of_record hfuel
    rw [TypeRef.ofPack]
    refine (decodeRecord_record TypeRef.areFieldNames rfl _ _ _).trans ?_
    refine (readsAs_text? ns.isText).put ?_
    refine (readsAs_text name.isText).put ?_
    refine (readsAs_text? moduleName.isText).put ?_
    refine (readsAs_true? t.isValueType).put ?_
    refine ReadsAs.put (readsAs_option (fun d hd => ?_) TypeRef.toPack_asRead_ne_nil) ?_
    · exact TypeRef.ofPack_toPack (declaring d hd) (hdepth "declaring" _ (by simp [hd]))
    refine ReadsAs.put (readsAs_option (fun g hg => ?_) GenericParam.toPack_asRead_ne_nil) ?_
    · exact GenericParam.ofPack_toPack (generic g hg) (hdepth "generic_param" _ (by simp [hg]))
    cases t
    rfl

lemma GenericParam.ofPack_toPack {g : GenericParam} : g.IsStorable → ∀ {fuel : Nat}, g.toPack.asRead.depth ≤ fuel →
      GenericParam.ofPack fuel { name := "" } g.toPack.asRead = some g
  | .mk name length_lt constraints, fuel, hfuel => by
    rw [GenericParam.toPack_eq] at hfuel ⊢
    obtain ⟨n, rfl, hdepth⟩ := exists_fuel_of_record hfuel
    rw [GenericParam.ofPack]
    refine (decodeRecord_record GenericParam.areFieldNames rfl _ _ _).trans ?_
    refine (readsAs_text name.isText).put ?_
    refine (readsAs_true? g.mustBeClass).put ?_
    refine (readsAs_true? g.mustBeStruct).put ?_
    refine ReadsAs.put (readsAs_list fun t ht => ?_) ?_
    · have hle : t.toPack.asRead.depth ≤ n :=
        depth_le_of_mem_nonempty? hdepth "constraints" (by simp) (mem_map_of_mem ht)
      exact TypeRef.ofPack_toPack (constraints t ht) hle
    cases g
    rfl

end

lemma GenericParam.listOfPack_toPack {gs : List GenericParam} (h : ∀ g ∈ gs, g.IsStorable) :
    GenericParam.listOfPack [] (Pack.array (gs.map GenericParam.toPack)).asRead = some gs := by
  have hlist : decodeList { name := "" } (fun g q => GenericParam.ofPack (q.depth + 1) g q) []
      (Pack.array (gs.map GenericParam.toPack)).asRead = some (some gs) :=
    decodeList_map fun g hg => GenericParam.ofPack_toPack (h g hg) (Nat.le_succ _)
  rw [GenericParam.listOfPack, hlist]
  rfl

namespace MethodRef

structure IsStorable (m : MethodRef) : Prop where
  declaring : m.declaring.IsStorable
  name : IsShortText m.name
  params : IsShortList IsShortText m.params
  returns : IsShortText m.returns

lemma areFieldNames : AreFieldNames packFields := ⟨by decide, by decide, by decide⟩

lemma isPlain_toPack {m : MethodRef} (h : m.IsStorable) : IsPlain False m.toPack := by
  refine isPlain_record areFieldNames rfl ?_
  simp [TypeRef.isPlain_toPack h.declaring, h.name, h.params.isPlain fun _ => isPlain_text, h.returns]

lemma ofPack_toPack {m : MethodRef} (h : m.IsStorable) :
    ofPack ⟨{ name := "" }, "", [], ""⟩ m.toPack.asRead = some m := by
  have hdeclaring : ReadsAs (fun p => TypeRef.ofPack (p.depth + 1) { name := "" } p) { name := "" }
      (some m.declaring.toPack) m.declaring :=
    readsAs_some (TypeRef.ofPack_toPack h.declaring (Nat.le_succ _))
  refine (decodeRecord_record areFieldNames rfl _ _ _).trans ?_
  refine hdeclaring.put ?_
  refine (readsAs_text h.name.isText).put ?_
  refine ReadsAs.put (readsAs_nonempty? (decodeTexts_map fun s hs => (h.params.forall_mem s hs).isText)) ?_
  refine (readsAs_text? h.returns.isText).put ?_
  rfl

end MethodRef

namespace Instruction

structure IsStorable (i : Instruction) : Prop where
  opcode : IsShortText i.opcode.mnemonic
  method : ∀ m, i.method = some m → m.IsStorable
  typeRef : ∀ t, i.typeRef = some t → t.IsStorable
  text : IsShortText i.text
  int : IsLong i.int

lemma areFieldNames : AreFieldNames packFields := ⟨by decide, by decide, by decide⟩

lemma isPlain_toPack {i : Instruction} (h : i.IsStorable) : IsPlain False i.toPack := by
  refine isPlain_record areFieldNames rfl ?_
  simpa [h.opcode, h.text, h.int] using
    ⟨fun m hm => MethodRef.isPlain_toPack (h.method m hm), fun t ht => TypeRef.isPlain_toPack (h.typeRef t ht)⟩

lemma ofPack_toPack {i : Instruction} (h : i.IsStorable) : ofPack {} i.toPack.asRead = some i := by
  have hint : ReadsAs decodeLong 0 (if i.int == 0 then none else some (.long i.int)) i.int :=
    readsAs_ite (decodeLong_int _ h.int) eq_of_beq
  refine (decodeRecord_record areFieldNames rfl _ _ _).trans ?_
  refine (readsAs_word i.offset).put ?_
  refine (readsAs_text h.opcode.isText).put ?_
  refine ReadsAs.put (readsAs_option (fun m hm => ?_) fun _ => record_asRead_ne_nil _) ?_
  · exact MethodRef.ofPack_toPack (h.method m hm)
  refine ReadsAs.put (readsAs_option (fun t ht => ?_) TypeRef.toPack_asRead_ne_nil) ?_
  · exact TypeRef.ofPack_toPack (h.typeRef t ht) (Nat.le_succ _)
  refine (readsAs_text? h.text.isText).put ?_
  refine hint.put ?_
  rfl

end Instruction

namespace MethodDef

structure IsStorable (m : MethodDef) : Prop where
  name : IsShortText m.name
  params : IsShortList IsShortText m.params
  returns : IsShortText m.returns
  genericParams : IsShortList GenericParam.IsStorable m.genericParams
  body : IsShortList Instruction.IsStorable m.body

lemma areFieldNames : AreFieldNames packFields := ⟨by decide, by decide, by decide⟩

lemma isPlain_toPack {m : MethodDef} (h : m.IsStorable) : IsPlain False m.toPack := by
  refine isPlain_record areFieldNames rfl ?_
  simp [h.name, h.params.isPlain fun _ => isPlain_text, h.returns,
    h.genericParams.isPlain fun _ => GenericParam.isPlain_toPack, h.body.isPlain fun _ => Instruction.isPlain_toPack]

lemma ofPack_toPack {m : MethodDef} (h : m.IsStorable) : ofPack {} m.toPack.asRead = some m := by
  refine (decodeRecord_record areFieldNames rfl _ _ _).trans ?_
  refine (readsAs_word m.token).put ?_
  refine (readsAs_text h.name.isText).put ?_
  refine ReadsAs.put (readsAs_nonempty? (decodeTexts_map fun s hs => (h.params.forall_mem s hs).isText)) ?_
  refine (readsAs_text? h.returns.isText).put ?_
  refine (readsAs_nonempty? (GenericParam.listOfPack_toPack h.genericParams.forall_mem)).put ?_
  refine ReadsAs.put (readsAs_list fun i hi => Instruction.ofPack_toPack (h.body.forall_mem i hi)) ?_
  rfl

end MethodDef

namespace TypeDef

mutual

/-- What is stored of a type: all but the types around those nested in it, at any depth. -/
def unlinked : TypeDef → TypeDef
  | { ns, name, isValueType, genericParams, methods, nested, declaring := _ } =>
    { ns, name, isValueType, genericParams, methods, nested := unlinkedAll nested }

def unlinkedAll : List TypeDef → List TypeDef
  | [] => []
  | t :: ts => t.unlinked :: unlinkedAll ts

end

lemma unlinkedAll_eq_map (ts : List TypeDef) : unlinkedAll ts = ts.map unlinked := by
  induction ts with
  | nil => rfl
  | cons t ts ih => rw [unlinkedAll, ih, map_cons]

lemma unlinked_eq (t : TypeDef) : t.unlinked = { t with declaring := none, nested := t.nested.map unlinked } := by
  rw [← unlinkedAll_eq_map]
  cases t
  rfl

inductive IsStorable : TypeDef → Prop
  | mk {t : TypeDef} (ns : IsShortText t.ns) (name : IsShortText t.name)
      (genericParams : IsShortList GenericParam.IsStorable t.genericParams)
      (methods : IsShortList MethodDef.IsStorable t.methods) (length_lt : t.nested.length < 0x100000000)
      (nested : ∀ n ∈ t.nested, IsStorable n) : IsStorable t

lemma listToPack_eq_map (ts : List TypeDef) : listToPack ts = ts.map toPack := by
  induction ts with
  | nil => rfl
  | cons t ts ih => rw [listToPack, ih, map_cons]

lemma toPack_eq (t : TypeDef) : t.toPack = .record [("ns", Pack.text? t.ns), ("name", some (.text t.name)),
      ("value_type", Pack.true? t.isValueType),
      ("generic_params", Pack.nonempty? (t.genericParams.map GenericParam.toPack)),
      ("methods", Pack.nonempty? (t.methods.map MethodDef.toPack)),
      ("nested", Pack.nonempty? (t.nested.map toPack))] := by
  rw [← listToPack_eq_map]
  cases t
  rfl

lemma areFieldNames : AreFieldNames packFields := ⟨by decide, by decide, by decide⟩

lemma isPlain_toPack {t : TypeDef} (h : t.IsStorable) : IsPlain False t.toPack := by
  induction h with
  | @mk t ns name genericParams methods length_lt nested ih =>
    rw [toPack_eq]
    refine isPlain_record areFieldNames rfl ?_
    simp [ns, name, genericParams.isPlain fun _ => GenericParam.isPlain_toPack,
      methods.isPlain fun _ => MethodDef.isPlain_toPack, IsShortList.isPlain ⟨length_lt, ih⟩ fun _ => id]

lemma ofPack_toPack {t : TypeDef} (h : t.IsStorable) {fuel : Nat} (hfuel : t.toPack.asRead.depth ≤ fuel) :
    ofPack fuel {} t.toPack.asRead = some t.unlinked := by
  induction h generalizing fuel with
  | @mk t ns name genericParams methods length_lt nested ih =>
    rw [toPack_eq] at hfuel ⊢
    obtain ⟨n, rfl, hdepth⟩ := exists_fuel_of_record hfuel
    rw [ofPack]
    refine (decodeRecord_record areFieldNames rfl _ _ _).trans ?_
    refine (readsAs_text? ns.isText).put ?_
    refine (readsAs_text name.isText).put ?_
    refine (readsAs_true? t.isValueType).put ?_
    refine (readsAs_nonempty? (GenericParam.listOfPack_toPack genericParams.forall_mem)).put ?_
    refine ReadsAs.put (readsAs_list fun m hm => MethodDef.ofPack_toPack (methods.forall_mem m hm)) ?_
    refine ReadsAs.put (readsAs_map (g := unlinked) fun s hs => ?_) ?_
    · have hle : s.toPack.asRead.depth ≤ n := depth_le_of_mem_nonempty? hdepth "nested" (by simp) (mem_map_of_mem hs)
      exact ih s hs hle
    rw [unlinked_eq]
    rfl

end TypeDef

namespace SequencePoint

structure IsStorable (p : SequencePoint) : Prop where
  document : IsShortText p.document
  line : IsLong p.line
  column : IsLong p.column

lemma areFieldNames : AreFieldNames ["offset", "doc", "line", "col", "hidden"] :=
  ⟨by decide, by decide, by decide⟩

lemma isPlain_toPack {p : SequencePoint} (h : p.IsStorable) : IsPlain False p.toPack := by
  refine isPlain_record areFieldNames rfl ?_
  simp [h.document, h.line, h.column]

lemma ofPack_toPack {p : SequencePoint} (h : p.IsStorable) : ofPack {} p.toPack.asRead = some p := by
  have hline : ReadsAs decodeLong 0 (some (.small p.line)) p.line := readsAs_some (decodeLong_int _ h.line)
  have hcolumn : ReadsAs decodeLong 0 (if p.column == 0 then none else some (.small p.column)) p.column :=
    readsAs_ite (decodeLong_int _ h.column) eq_of_beq
  refine (decodeRecord_record areFieldNames rfl _ _ _).trans ?_
  refine (readsAs_word p.offset).put ?_
  refine (readsAs_text h.document.isText).put ?_
  refine hline.put ?_
  refine hcolumn.put ?_
  refine (readsAs_true? p.hidden).put ?_
  rfl

end SequencePoint

namespace Symbols

variable {ps : Option (List SequencePoint)} {s : Symbols} {es : List (UInt32 × Option (List SequencePoint))}

/-- Whether a symbol table has bytes. A method has one entry at most. -/
structure IsStorable (s : Symbols) : Prop where
  moduleName : IsShortText s.moduleName
  length_lt : s.entries.length < 0x100000000
  nodup : (s.entries.map Prod.fst).Nodup
  points : ∀ e ∈ s.entries, ∀ ps, e.2 = some ps → IsShortList SequencePoint.IsStorable ps

def pointsToPack : Option (List SequencePoint) → Pack
  | none => .nil
  | some ps => .array (ps.map SequencePoint.toPack)

def methodsToPack : Option (List (UInt32 × Option (List SequencePoint))) → Pack
  | none => .nil
  | some es => .map ((es.map fun e => (e.1, pointsToPack e.2)).map fun (token, p) => (.word token, p))

lemma toPack_eq (s : Symbols) :
    s.toPack = .record [("module", some (.text s.moduleName)), ("methods", some (methodsToPack s.methods))] := by
  obtain ⟨name, _ | es⟩ := s
  · rfl
  · rw [methodsToPack, map_map]
    refine congrArg (fun es => Pack.record [("module", some (.text name)), ("methods", some (.map es))]) ?_
    refine map_congr_left fun e _ => ?_
    obtain ⟨token, _ | ps⟩ := e <;> rfl

lemma areFieldNames : AreFieldNames packFields := ⟨by decide, by decide, by decide⟩

lemma isPlain_pointsToPack (h : ∀ qs, ps = some qs → IsShortList SequencePoint.IsStorable qs) :
    IsPlain False (pointsToPack ps) := by
  cases ps with
  | none => exact isPlain_nil
  | some ps => exact (h ps rfl).isPlain fun _ => SequencePoint.isPlain_toPack

lemma isPlain_toPack (h : s.IsStorable) : IsPlain False s.toPack := by
  have hmethods : IsPlain False (methodsToPack s.methods) := by
    obtain ⟨name, _ | es⟩ := s
    · exact isPlain_nil
    · refine isPlain_map_word (by rw [length_map]; exact h.length_lt) fun f hf => ?_
      obtain ⟨e, he, rfl⟩ := mem_map.1 hf
      exact isPlain_pointsToPack (h.points e he)
  rw [toPack_eq]
  refine isPlain_record areFieldNames rfl ?_
  simp [h.moduleName, hmethods]

lemma decodeList_pointsToPack (h : ∀ qs, ps = some qs → IsShortList SequencePoint.IsStorable qs) :
    decodeList {} SequencePoint.ofPack [] (pointsToPack ps).asRead = some ps := by
  cases ps with
  | none => rfl
  | some ps => exact decodeList_map fun p hp => SequencePoint.ofPack_toPack ((h ps rfl).forall_mem p hp)

lemma setEntry_of_not_mem {token : UInt32}
    (h : token ∉ es.map Prod.fst) : setEntry token ps es = es ++ [(token, ps)] := by
  induction es with
  | nil => rfl
  | cons e es ih =>
    rw [map_cons, mem_cons, not_or] at h
    have hne : ¬ (e.1 == token) = true := fun heq => h.1 (eq_of_beq heq).symm
    rw [setEntry, if_neg hne, ih h.2, cons_append]

lemma foldlM_entries {name : String} (acc : List (UInt32 × Option (List SequencePoint)))
    (hpoints : ∀ e ∈ es, ∀ ps, e.2 = some ps → IsShortList SequencePoint.IsStorable ps)
    (hnodup : ((acc ++ es).map Prod.fst).Nodup) :
    (es.map fun e => (Pack.asRead (.word e.1), (pointsToPack e.2).asRead)).foldlM
      (fun (s : Symbols) (k, v) => do
        let token ← k.decodeWord
        let ps ← decodeList {} SequencePoint.ofPack [] v
        some (s.set token ps)) ⟨name, some acc⟩ = some ⟨name, some (acc ++ es)⟩ := by
  induction es generalizing acc with
  | nil => rw [append_nil]; rfl
  | cons e es ih =>
    have hword : decodeWord (Pack.asRead (.word e.1)) = some e.1 := (readsAs_word e.1).of_some _ rfl
    have hlist := decodeList_pointsToPack (hpoints e mem_cons_self)
    have hfresh : e.1 ∉ acc.map Prod.fst := by
      rw [List.map_append, nodup_append] at hnodup
      exact fun hmem => hnodup.2.2 e.1 hmem e.1 (mem_map_of_mem mem_cons_self) rfl
    have hset : set ⟨name, some acc⟩ e.1 e.2 = ⟨name, some (acc ++ [e])⟩ :=
      congrArg (fun es => Symbols.mk name (some es)) (setEntry_of_not_mem hfresh)
    have happend : acc ++ e :: es = (acc ++ [e]) ++ es := by rw [append_assoc]; rfl
    simp only [map_cons, foldlM_cons, hword, hlist, Option.bind_eq_bind, Option.bind_some, hset]
    rw [happend] at hnodup ⊢
    exact ih _ (fun f hf => hpoints f (mem_cons_of_mem e hf)) hnodup

lemma methodsOfPack_methodsToPack (h : s.IsStorable) :
    methodsOfPack { moduleName := s.moduleName } (methodsToPack s.methods).asRead = some s := by
  obtain ⟨name, _ | es⟩ := s
  · rfl
  · rw [methodsToPack, asRead, entriesAsRead_eq_map, map_map, map_map]
    exact foldlM_entries [] h.points h.nodup

lemma ofPack_toPack (h : s.IsStorable) : ofPack {} s.toPack.asRead = some s := by
  rw [toPack_eq]
  refine (decodeRecord_record areFieldNames rfl _ _ _).trans ?_
  refine (readsAs_text h.moduleName.isText).put ?_
  rw [foldlM_cons]
  exact congrArg (Option.bind · some) (methodsOfPack_methodsToPack h)

end Symbols

namespace Module

variable {m : Module} {ts : List TypeDef} {outer : Option TypeRef}

/-! ### Linking -/

lemma linkTypes_eq_map (outer : Option TypeRef) (ts : List TypeDef) :
    linkTypes outer ts = ts.map (linkType outer) := by
  induction ts with
  | nil => rfl
  | cons t ts ih => rw [linkTypes, ih, map_cons]

lemma linkType_eq (outer : Option TypeRef) (t : TypeDef) :
    linkType outer t = { t with
      declaring := outer, nested := t.nested.map (linkType (some { t with declaring := outer }.ref)) } := by
  rw [← linkTypes_eq_map]
  cases t
  rfl

mutual

lemma linkType_unlinked (outer : Option TypeRef) :
    ∀ t : TypeDef, linkType outer t.unlinked = linkType outer t
  | { ns, name, isValueType, genericParams, methods, nested, declaring } => by
    rw [TypeDef.unlinked, linkType, linkType, linkTypes_unlinkedAll]

lemma linkTypes_unlinkedAll (outer : Option TypeRef) :
    ∀ ts : List TypeDef, linkTypes outer (TypeDef.unlinkedAll ts) = linkTypes outer ts
  | [] => rfl
  | t :: ts => by rw [TypeDef.unlinkedAll, linkTypes, linkTypes, linkType_unlinked, linkTypes_unlinkedAll]

end

mutual

lemma linkType_linkType (outer outer' : Option TypeRef) :
    ∀ t : TypeDef, linkType outer (linkType outer' t) = linkType outer t
  | { ns, name, isValueType, genericParams, methods, nested, declaring } => by
    rw [linkType, linkType, linkType, linkTypes_linkTypes]

lemma linkTypes_linkTypes (outer outer' : Option TypeRef) :
    ∀ ts : List TypeDef, linkTypes outer (linkTypes outer' ts) = linkTypes outer ts
  | [] => rfl
  | t :: ts => by rw [linkTypes, linkTypes, linkTypes, linkType_linkType, linkTypes_linkTypes]

end

lemma link_link (m : Module) : m.link.link = m.link := by
  simp only [link, Option.map_map, Function.comp_def, linkTypes_linkTypes]

lemma isStorable_linkType {t : TypeDef} (h : t.IsStorable) (outer : Option TypeRef) :
    (linkType outer t).IsStorable := by
  induction h generalizing outer with
  | @mk t ns name genericParams methods length_lt nested ih =>
    rw [linkType_eq]
    refine .mk ns name genericParams methods (by rwa [length_map]) fun n hn => ?_
    obtain ⟨u, hu, rfl⟩ := mem_map.1 hn
    exact ih u hu _

lemma walkTypes_eq_flatMap (ts : List TypeDef) : walkTypes ts = ts.flatMap walkType := by
  induction ts with
  | nil => rfl
  | cons t ts ih => rw [walkTypes, ih, flatMap_cons]

/-- What is stored of a module. -/
def unlinked (m : Module) : Module := { m with types := m.types.map TypeDef.unlinkedAll }

lemma link_unlinked (m : Module) : m.unlinked.link = m.link := by
  simp only [link, unlinked, Option.map_map, Function.comp_def, linkTypes_unlinkedAll]

/-- The types of a module, at any depth. -/
inductive Declares (m : Module) : TypeDef → Prop
  | top {ts : List TypeDef} {t : TypeDef} (hts : m.types = some ts) (ht : t ∈ ts) : m.Declares t
  | nested {t n : TypeDef} (h : m.Declares t) (hn : n ∈ t.nested) : m.Declares n

/-- Whether every type of a module knows the type around it. -/
structure IsLinked (m : Module) : Prop where
  outermost : ∀ ts, m.types = some ts → ∀ t ∈ ts, t.declaring = none
  nested : ∀ t n, m.Declares t → n ∈ t.nested → n.declaring = some t.ref

lemma Declares.exists_eq_linkType {t : TypeDef} (h : m.link.Declares t) : ∃ outer u, t = linkType outer u := by
  induction h with
  | top hts ht =>
    obtain ⟨us, -, rfl⟩ := Option.map_eq_some_iff.1 hts
    rw [linkTypes_eq_map] at ht
    obtain ⟨u, -, rfl⟩ := mem_map.1 ht
    exact ⟨none, u, rfl⟩
  | nested _ hn ih =>
    obtain ⟨outer, u, rfl⟩ := ih
    rw [linkType_eq] at hn
    obtain ⟨v, -, rfl⟩ := mem_map.1 hn
    exact ⟨_, v, rfl⟩

lemma isLinked_link (m : Module) : m.link.IsLinked where
  outermost ts hts t ht := by
    obtain ⟨us, -, rfl⟩ := Option.map_eq_some_iff.1 hts
    rw [linkTypes_eq_map] at ht
    obtain ⟨u, -, rfl⟩ := mem_map.1 ht
    rw [linkType_eq]
  nested t n h hn := by
    obtain ⟨outer, u, rfl⟩ := h.exists_eq_linkType
    rw [linkType_eq] at hn ⊢
    obtain ⟨v, -, rfl⟩ := mem_map.1 hn
    rw [linkType_eq]
    rfl

/-! ### Modules -/

structure IsStorable (m : Module) : Prop where
  formatVersion : IsLong m.formatVersion
  name : IsShortText m.name
  version : IsShortText m.version
  runtimeVersion : IsShortText m.runtimeVersion
  types : ∀ ts, m.types = some ts → IsShortList TypeDef.IsStorable ts
  symbols : ∀ s, m.symbols = some s → s.IsStorable

def typesToPack : Option (List TypeDef) → Pack
  | none => .nil
  | some ts => .array (ts.map TypeDef.toPack)

lemma toPack_eq (m : Module) :
    m.toPack = .record [("format_version", some (.small m.formatVersion)), ("name", some (.text m.name)),
      ("version", Pack.text? m.version), ("runtime_version", Pack.text? m.runtimeVersion),
      ("debug_build", Pack.true? m.isDebugBuild), ("types", some (typesToPack m.types)),
      ("symbols", m.symbols.map Symbols.toPack)] := by
  obtain ⟨_, _, _, _, _, _ | ts, _⟩ := m
  · rfl
  · rw [typesToPack, ← TypeDef.listToPack_eq_map]
    rfl

lemma areFieldNames : AreFieldNames packFields := ⟨by decide, by decide, by decide⟩

section

variable (h : m.IsStorable)
include h

lemma isPlain_toPack : IsPlain False m.toPack := by
  have htypes : IsPlain False (typesToPack m.types) := by
    cases hts : m.types with
    | none => exact isPlain_nil
    | some ts => exact (h.types ts hts).isPlain fun _ => TypeDef.isPlain_toPack
  rw [toPack_eq]
  refine isPlain_record areFieldNames rfl ?_
  simpa [h.formatVersion, h.name, h.version, h.runtimeVersion, htypes] using
    fun s hs => Symbols.isPlain_toPack (h.symbols s hs)

lemma ofPlainPack_toPack : ofPlainPack m.toPack.asRead = some m.unlinked := by
  have hversion : ReadsAs decodeLong 0 (some (.small m.formatVersion)) m.formatVersion :=
    readsAs_some (decodeLong_int _ h.formatVersion)
  have htypes : ReadsAs (decodeList {} (fun t q => TypeDef.ofPack (q.depth + 1) t q) []) none
      (some (typesToPack m.types)) m.unlinked.types := by
    refine readsAs_some ?_
    rw [unlinked]
    cases hts : m.types with
    | none => rfl
    | some ts =>
      have hitems : decodeItems {} (fun t q => TypeDef.ofPack (q.depth + 1) t q) [] (itemsAsRead (ts.map TypeDef.toPack)) =
          some (ts.map TypeDef.unlinked) :=
        decodeItems_map fun t ht => TypeDef.ofPack_toPack ((h.types ts hts).forall_mem t ht) (Nat.le_succ _)
      rw [typesToPack, asRead, decodeList, hitems, Option.map_some, Option.map_some, TypeDef.unlinkedAll_eq_map]
  rw [toPack_eq]
  refine (decodeRecord_record areFieldNames rfl _ _ _).trans ?_
  refine hversion.put ?_
  refine (readsAs_text h.name.isText).put ?_
  refine (readsAs_text? h.version.isText).put ?_
  refine (readsAs_text? h.runtimeVersion.isText).put ?_
  refine (readsAs_true? m.isDebugBuild).put ?_
  refine htypes.put ?_
  refine ReadsAs.put (readsAs_option (fun s hs => ?_) fun _ => record_asRead_ne_nil _) ?_
  · exact Symbols.ofPack_toPack (h.symbols s hs)
  rfl

lemma ofPack_toPack : ofPack m.toPack.asRead = some m.unlinked := by
  rw [ofPack, ofPlainPack_toPack h, (isPlain_toPack h).unrepeated]
  rfl

lemma IsStorable.withWrittenFormat : IsStorable { m with formatVersion := m.writtenFormat } where
  formatVersion := by
    obtain ⟨hlo, hhi⟩ := h.formatVersion
    rw [writtenFormat]
    split
    · exact show IsLong moduleFormat from ⟨by decide, by decide⟩
    · exact ⟨hlo, hhi⟩
  name := h.name
  version := h.version
  runtimeVersion := h.runtimeVersion
  types := h.types
  symbols := h.symbols

lemma decode_encode (hversion : m.formatVersion ≤ moduleFormat) (rest : Bytes) :
    decode (m.encode ++ rest) = .ok { m.link with formatVersion := m.writtenFormat } := by
  have hread : Pack.read? (m.encode ++ rest) (("symbols", 6) :: Symbols.methodsPath) =
      some ({ m with formatVersion := m.writtenFormat }.toPack.asRead, rest) :=
    read?_write False.elim (isPlain_toPack h.withWrittenFormat).writable rest
  have hformat : ¬ moduleFormat < m.writtenFormat := by
    rw [writtenFormat]
    split <;> omega
  simp only [decode, hread, Option.bind_some, ofPack_toPack h.withWrittenFormat, link_unlinked]
  exact if_neg hformat

end

end Module

/-! ### The order of entries -/

/-- Whether two symbol tables differ at most in the order of their entries. -/
structure Symbols.Rearranges (s s' : Symbols) : Prop where
  moduleName : s'.moduleName = s.moduleName
  methods : Option.Rel List.Perm s.methods s'.methods

namespace Symbols

lemma Rearranges.refl (s : Symbols) : s.Rearranges s := by
  refine ⟨rfl, ?_⟩
  cases s.methods with
  | none => exact .none
  | some es => exact .some (List.Perm.refl es)

lemma Rearranges.perm {s s' : Symbols} (h : s.Rearranges s') : s.entries.Perm s'.entries := by
  obtain ⟨name, methods⟩ := s
  obtain ⟨name', methods'⟩ := s'
  cases (show Option.Rel List.Perm methods methods' from h.methods) with
  | some hperm => exact hperm
  | none => exact List.Perm.nil

lemma IsStorable.rearranged {s s' : Symbols} (hs : s.IsStorable) (h : s.Rearranges s') : s'.IsStorable where
  moduleName := h.moduleName ▸ hs.moduleName
  length_lt := h.perm.length_eq ▸ hs.length_lt
  nodup := (h.perm.map Prod.fst).nodup_iff.1 hs.nodup
  points e he := hs.points e (h.perm.mem_iff.2 he)

lemma find?_eq_some_iff {es : List (UInt32 × Option (List SequencePoint))} (h : (es.map Prod.fst).Nodup)
    {token : UInt32} {e : UInt32 × Option (List SequencePoint)} :
    es.find? (·.1 == token) = some e ↔ e ∈ es ∧ e.1 = token := by
  constructor
  · intro hfind
    have hkey := find?_some hfind
    exact ⟨mem_of_find?_eq_some hfind, eq_of_beq hkey⟩
  · rintro ⟨he, rfl⟩
    have hsome : (es.find? (·.1 == e.1)).isSome := by
      rw [find?_isSome]
      exact ⟨e, he, beq_self_eq_true e.1⟩
    obtain ⟨f, hf⟩ := Option.isSome_iff_exists.1 hsome
    have hkey := find?_some hf
    rw [hf, inj_on_of_nodup_map h (mem_of_find?_eq_some hf) he (eq_of_beq hkey)]

lemma Rearranges.points_eq {s s' : Symbols} (hs : s.IsStorable) (h : s.Rearranges s') (token : UInt32) :
    s'.points token = s.points token := by
  have hfind : s'.entries.find? (·.1 == token) = s.entries.find? (·.1 == token) := by
    refine Option.ext fun e => ?_
    rw [find?_eq_some_iff hs.nodup, find?_eq_some_iff (hs.rearranged h).nodup, h.perm.mem_iff]
  rw [points, points, hfind]

end Symbols

namespace Module

/-- Whether two modules differ at most in the order of the entries of their symbol tables. -/
def Rearranges (m m' : Module) : Prop :=
  ∃ symbols, Option.Rel Symbols.Rearranges m.symbols symbols ∧ m' = { m with symbols := symbols }

lemma Rearranges.refl (m : Module) : m.Rearranges m := by
  refine ⟨m.symbols, ?_, rfl⟩
  cases m.symbols with
  | none => exact .none
  | some s => exact .some (Symbols.Rearranges.refl s)

lemma IsStorable.rearranged {m m' : Module} (hm : m.IsStorable) (h : m.Rearranges m') : m'.IsStorable := by
  obtain ⟨symbols, hrel, rfl⟩ := h
  refine ⟨hm.formatVersion, hm.name, hm.version, hm.runtimeVersion, hm.types, fun s' hs' => ?_⟩
  obtain rfl : symbols = some s' := hs'
  cases hs : m.symbols with
  | none => rw [hs] at hrel; cases hrel
  | some s =>
    rw [hs] at hrel
    cases hrel with
    | some h => exact (hm.symbols s hs).rearranged h

lemma Rearranges.pointAt?_eq {m m' : Module} (hm : m.IsStorable) (h : m.Rearranges m')
    (token offset : UInt32) : m'.pointAt? token offset = m.pointAt? token offset := by
  obtain ⟨symbols, hrel, rfl⟩ := h
  rw [pointAt?, pointAt?]
  cases hs : m.symbols with
  | none =>
    rw [hs] at hrel
    cases hrel
    rfl
  | some s =>
    rw [hs] at hrel
    cases hrel with
    | some h =>
      rw [Option.bind_some, Option.bind_some, Symbols.pointAt?, Symbols.pointAt?, h.points_eq (hm.symbols s hs)]

/-- A module that is written with its symbols in any order is read back, whatever bytes follow it.
The result differs at most in the format version, which is written as the current one when it is not
set, and in the order of the symbols, which no look-up sees, and in that every nested type, at any
depth, knows the type around it. -/
theorem exists_decode_encode_append {m m' : Module} (hm : m.IsStorable)
    (hversion : m.formatVersion ≤ moduleFormat) (hm' : m.Rearranges m') (rest : Bytes) :
    ∃ r, decode (m'.encode ++ rest) = .ok r ∧
      { m.link with formatVersion := if m.formatVersion = 0 then moduleFormat else m.formatVersion }.Rearranges r ∧
      (∀ token offset, r.pointAt? token offset = m.pointAt? token offset) ∧ r.IsLinked := by
  have hstorable := hm.rearranged hm'
  have hpoints := hm'.pointAt?_eq hm
  obtain ⟨symbols, hrel, rfl⟩ := hm'
  refine ⟨_, decode_encode hstorable hversion rest, ⟨symbols, hrel, ?_⟩, hpoints,
    isLinked_link { m with formatVersion := _, symbols }⟩
  simp only [writtenFormat, beq_iff_eq, link]

def nestedSample (entries : List (UInt32 × Option (List SequencePoint))) : Module where
  name := "M"
  types := some [{
    ns := "N", name := "Outer",
    nested := [{
      name := "Inner",
      methods := [{
        token := 7, name := "Run", params := ["int"],
        body := [{
          opcode := ⟨"call"⟩, int := -1,
          method := some {
            declaring := {
              name := "Box", declaring := some { name := "Lib" },
              generic := some { name := "T", constraints := [{ name := "C" }] } },
            name := "get_Item" } }] }] }] }]
  symbols := some { moduleName := "M", methods := some entries }

def nestedSampleEntries : List (UInt32 × Option (List SequencePoint)) :=
  [(7, some [{ offset := 1, document := "a.cs", line := -5, hidden := true }]), (9, none)]

lemma isStorable_nestedSample : (nestedSample nestedSampleEntries).IsStorable := by
  have short : ∀ {s : String}, IsFieldName s → IsShortText s := IsFieldName.isShortText
  have ref {name : String} (h : IsFieldName name) : TypeRef.IsStorable { name } :=
    .mk isShortText_empty (short h) isShortText_empty nofun nofun
  have param : GenericParam.IsStorable { name := "T", constraints := [{ name := "C" }] } :=
    .mk (short (by decide)) (by decide) fun t ht => mem_singleton.1 ht ▸ ref (by decide)
  have box : TypeRef.IsStorable {
      name := "Box", declaring := some { name := "Lib" },
      generic := some { name := "T", constraints := [{ name := "C" }] } } :=
    .mk (short (by decide)) (short (by decide)) (short (by decide))
      (fun d hd => Option.some.inj hd ▸ ref (by decide)) (fun g hg => Option.some.inj hg ▸ param)
  refine ⟨⟨by decide, by decide⟩, short (by decide), short (by decide), short (by decide), fun ts hts => ?_,
    fun s hs => ?_⟩
  · cases hts
    refine .singleton (.mk (short (by decide)) (short (by decide)) .nil .nil (by decide) fun t ht => ?_)
    obtain rfl := mem_singleton.1 ht
    refine .mk (short (by decide)) (short (by decide)) .nil (.singleton ?_) (by decide) nofun
    refine ⟨short (by decide), .singleton (short (by decide)), short (by decide), .nil, .singleton ?_⟩
    refine ⟨short (by decide), fun m hm => ?_, nofun, short (by decide), ⟨by decide, by decide⟩⟩
    cases hm
    exact ⟨box, short (by decide), .nil, short (by decide)⟩
  · cases hs
    refine ⟨short (by decide), by decide, by decide, fun e he ps hps => ?_⟩
    rcases mem_cons.1 he with rfl | he
    · cases hps
      exact .singleton ⟨short (by decide), ⟨by decide, by decide⟩, ⟨by decide, by decide⟩⟩
    · rw [mem_singleton.1 he] at hps
      cases hps

lemma rearranges_nestedSample :
    (nestedSample nestedSampleEntries).Rearranges (nestedSample nestedSampleEntries.reverse) :=
  ⟨some ⟨"M", some nestedSampleEntries.reverse⟩, .some ⟨rfl, .some (reverse_perm _).symm⟩, rfl⟩

theorem exists_decode_encode_append_nestedSample :
    (nestedSample nestedSampleEntries).IsStorable ∧
      ∃ r, decode ((nestedSample nestedSampleEntries.reverse).encode ++ [0xc1, 0x00]) = .ok r ∧
        { (nestedSample nestedSampleEntries).link with formatVersion := 1 }.Rearranges r ∧
        (∀ token offset, r.pointAt? token offset =
          (nestedSample nestedSampleEntries).pointAt? token offset) ∧ r.IsLinked :=
  ⟨isStorable_nestedSample,
    exists_decode_encode_append isStorable_nestedSample (by decide) rearranges_nestedSample [0xc1, 0x00]⟩

end Module

/-! ### Files that were cut off

Nothing is read from the first bytes of a module or of a symbol table (`decode_of_isCutFrom`): if
the reader came to an end before the cut, it would leave over what was cut off
(`Pack.read?_eq_none_of_prefix`). -/

open Option

/-- Whether bytes are the first ones of a whole, and not all of it. -/
def IsCutFrom (bs whole : Bytes) : Prop := bs <+: whole ∧ bs ≠ whole

lemma isCutFrom_dropLast {whole : Bytes} (h : whole ≠ []) : IsCutFrom whole.dropLast whole := by
  refine ⟨ dropLast_prefix whole, fun heq => ?_⟩
  have hlength := congrArg List.length heq
  have hpos := length_pos_of_ne_nil h
  rw [length_dropLast] at hlength
  omega

variable {bs : Bytes} {d : Disk} {path : String}

lemma Symbols.decode_of_isCutFrom {s : Symbols} (hs : s.IsStorable) (hbs : IsCutFrom bs s.encode) :
    decode bs = .error (.malformed "not a symbol table") := by
  have hread : Pack.read? bs methodsPath = none :=
    read?_eq_none_of_prefix False.elim (isPlain_toPack hs).writable hbs.1 hbs.2
  simp only [decode, hread, bind_none]

lemma Symbols.load_of_isCutFrom {s : Symbols} (hs : s.IsStorable) (hbs : IsCutFrom bs s.encode)
    (hread : d.read path = .ok bs) :
    load d path = .error (.during ("decode " ++ path) (.malformed "not a symbol table")) := by
  simp only [load, hread, decode_of_isCutFrom hs hbs]

lemma Module.decode_of_isCutFrom {m : Module} (hm : m.IsStorable) (hbs : IsCutFrom bs m.encode) :
    decode bs = .error (.during "decode module" (.malformed "not a module")) := by
  have hread : Pack.read? bs (("symbols", 6) :: Symbols.methodsPath) = none :=
    read?_eq_none_of_prefix False.elim (isPlain_toPack hm.withWrittenFormat).writable hbs.1 hbs.2
  simp only [decode, hread, bind_none]

lemma LoadedModule.load_of_isCutFrom {m : Module} (hm : m.IsStorable) (hbs : IsCutFrom bs m.encode)
    (hread : d.read path = .ok bs) :
    load d path = .error (.load path (.during "decode module" (.malformed "not a module"))) := by
  simp only [load, loadAlone, hread, Module.decode_of_isCutFrom hm hbs, Except.map, Except.bind]

/-- Nothing is read from the first bytes of a module, and a file that holds them is not loaded; the
failure names the file. The same goes for symbol tables and symbol files. -/
theorem refused_of_isCutFrom :
    (∀ (m : Module) (bs : Bytes), m.IsStorable → IsCutFrom bs m.encode →
      Module.decode bs = .error (.during "decode module" (.malformed "not a module")) ∧
      ∀ (d : Disk) (path : String), d.read path = .ok bs →
        LoadedModule.load d path = .error (.load path (.during "decode module" (.malformed "not a module")))) ∧
    ∀ (s : Symbols) (bs : Bytes), s.IsStorable → IsCutFrom bs s.encode →
      Symbols.decode bs = .error (.malformed "not a symbol table") ∧
      ∀ (d : Disk) (path : String), d.read path = .ok bs →
        Symbols.load d path = .error (.during ("decode " ++ path) (.malformed "not a symbol table")) :=
  ⟨fun _ _ hm hbs => ⟨Module.decode_of_isCutFrom hm hbs, fun _ _ => LoadedModule.load_of_isCutFrom hm hbs⟩,
    fun _ _ hs hbs => ⟨Symbols.decode_of_isCutFrom hs hbs, fun _ _ => Symbols.load_of_isCutFrom hs hbs⟩⟩

/-- A tree with a module file that lacks its last byte, and an empty symbol file. -/
def halfWritten : Disk where
  nodes := [
    (["M.bcm"], .file (Module.nestedSample Module.nestedSampleEntries).encode.dropLast),
    (["M.sym"], .file [])]

/-- Neither of the two files is loaded. -/
theorem refused_of_isCutFrom_halfWritten :
    IsCutFrom (Module.nestedSample Module.nestedSampleEntries).encode.dropLast
      (Module.nestedSample Module.nestedSampleEntries).encode ∧
    LoadedModule.load halfWritten "M.bcm" =
      .error (.load "M.bcm" (.during "decode module" (.malformed "not a module"))) ∧
    Symbols.load halfWritten "M.sym" = .error (.during "decode M.sym" (.malformed "not a symbol table")) := by
  obtain ⟨hmodules, hsymbols⟩ := refused_of_isCutFrom
  have hmodule : IsCutFrom (Module.nestedSample Module.nestedSampleEntries).encode.dropLast _ :=
    isCutFrom_dropLast (List.ne_nil_of_length_pos (length_write_pos _))
  have htable : Symbols.IsStorable ⟨"M", some Module.nestedSampleEntries⟩ :=
    Module.isStorable_nestedSample.symbols _ rfl
  have hempty : IsCutFrom [] (Symbols.encode ⟨"M", some Module.nestedSampleEntries⟩) :=
    ⟨List.nil_prefix, (List.ne_nil_of_length_pos (length_write_pos _)).symm⟩
  exact ⟨hmodule, (hmodules _ _ Module.isStorable_nestedSample hmodule).2 halfWritten "M.bcm" rfl,
    (hsymbols _ _ htable hempty).2 halfWritten "M.sym" rfl⟩

end BytecodeAudit
