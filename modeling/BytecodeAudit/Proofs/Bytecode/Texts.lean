import BytecodeAudit.Proofs.Bytecode.RoundTrip

/-!
# What reading a module yields

Whatever bytes a module is read from, its strings are texts, its lines and columns are machine
integers, and names that are put together from them are texts again (`HasTexts`). Reading
establishes this field by field: what every field keeps, the record keeps
(`decodeRecord_induction`), with one such lemma for lists and for values that may be missing.
-/

namespace BytecodeAudit

open List Option

open Pack Text

variable {p : Pack}

namespace Pack

variable {p : Pack}

/-! ### What reading keeps -/

lemma isText_of_decodeText {s : String} (h : p.decodeText = some s) : IsText s := by
  cases p with
  | nil => exact some.inj h ▸ IsAscii.isText (by decide)
  | bytes bs | blob bs => exact some.inj h ▸ isText_ofBytes bs
  | _ => cases h

lemma isLong_of_decodeLong {n : Int} (h : p.decodeLong = some n) : IsLong n := by
  cases p with
  | nil => exact some.inj h ▸ ⟨by decide, by decide⟩
  | int m width =>
    cases h
    have hspan : Word.span 64 = 0x10000000000000000 := by decide
    have hlo := Int.le_bmod (x := m) (m := 0x10000000000000000) (by decide)
    have hhi := Int.bmod_lt (x := m) (m := 0x10000000000000000) (by decide)
    rw [Word.signed, hspan]
    exact ⟨by omega, by omega⟩
  | _ => cases h

section

variable {α : Type} {P : α → Prop}

lemma of_map_eq_some {β : Type} {x : Option β} {f : β → α} {b : α} (h : x.map f = some b)
    (hf : ∀ y, x = some y → P (f y)) : P b := by
  obtain ⟨y, hy, rfl⟩ := map_eq_some_iff.1 h
  exact hf y hy

lemma foldlM_induction {β : Type} {f : α → β → Option α} (hf : ∀ a x b, P a → f a x = some b → P b)
    {xs : List β} {a b : α} (ha : P a) (h : xs.foldlM f a = some b) : P b := by
  induction xs generalizing a with
  | nil => exact some.inj h ▸ ha
  | cons x xs ih =>
    rw [foldlM_cons] at h
    obtain ⟨c, hc, hrest⟩ := bind_eq_some_iff.1 h
    exact ih (hf a x c ha hc) hrest

lemma decodeRecord_induction {fields : List String} {set : α → String → Pack → Option α} {empty cur b : α}
    (hset : ∀ a k v b, P a → set a k v = some b → P b) (hempty : P empty) (hcur : P cur)
    (h : decodeRecord fields set empty cur p = some b) : P b := by
  unfold decodeRecord at h
  split at h
  · exact some.inj h ▸ hempty
  · refine foldlM_induction (fun a x b ha hb => ?_) hcur h
    obtain ⟨name, -, hb⟩ := bind_eq_some_iff.1 hb
    split at hb
    · exact hset a name x.2 b ha hb
    · exact some.inj hb ▸ ha
  · split at h
    · exact some.inj h ▸ hempty
    split at h
    · exact foldlM_induction (fun a x b ha hb => hset a x.1 x.2 b ha hb) hcur h
    · cases h
  · cases h

variable {empty : α} {item : α → Pack → Option α} (hitem : ∀ {a v b}, P a → item a v = some b → P b) (hempty : P empty)
include hitem hempty

lemma decodeItems_induction {cur bs : List α} {xs : List Pack} (hcur : ∀ a ∈ cur, P a)
    (h : decodeItems empty item cur xs = some bs) : ∀ b ∈ bs, P b := by
  induction xs generalizing cur bs with
  | nil =>
    cases h
    exact nofun
  | cons x xs ih =>
    rw [decodeItems] at h
    obtain ⟨y, hy, h⟩ := bind_eq_some_iff.1 h
    obtain ⟨ys, hys, h⟩ := bind_eq_some_iff.1 h
    cases h
    have hhead : P (cur.head?.getD empty) := by
      cases cur with
      | nil => exact hempty
      | cons c cur => exact hcur c mem_cons_self
    have htail : ∀ a ∈ cur.tail, P a := fun a ha => hcur a (mem_of_mem_tail ha)
    exact forall_mem_cons.2 ⟨hitem hhead hy, ih htail hys⟩

lemma decodeList_induction {cur : List α} {bs : Option (List α)} (hcur : ∀ a ∈ cur, P a)
    (h : decodeList empty item cur p = some bs) : ∀ b ∈ bs.getD [], P b := by
  unfold decodeList at h
  split at h
  · cases h
    exact nofun
  · obtain ⟨ys, hys, rfl⟩ := map_eq_some_iff.1 h
    exact decodeItems_induction hitem hempty hcur hys
  · cases h

lemma decodeOption_induction {cur b : Option α}
    (hcur : ∀ a, cur = some a → P a) (h : decodeOption empty item cur p = some b) : ∀ a, b = some a → P a := by
  unfold decodeOption at h
  split at h
  · cases h
    exact nofun
  · obtain ⟨y, hy, rfl⟩ := map_eq_some_iff.1 h
    have hgetD : P (cur.getD empty) := by
      cases cur with
      | none => exact hempty
      | some c => exact hcur c rfl
    rintro a ⟨⟩
    exact hitem hgetD hy

end

lemma decodeTexts_induction {cur ss : List String} (hcur : ∀ s ∈ cur, IsText s) (h : decodeTexts cur p = some ss) :
    ∀ s ∈ ss, IsText s := by
  unfold decodeTexts at h
  split at h
  · exact some.inj h ▸ hcur
  · intro s hs
    obtain ⟨x, -, hx⟩ := exists_of_mem_mapM h hs
    exact isText_of_decodeText hx
  · cases h

end Pack

/-! ### References -/

inductive TypeRef.HasTexts : TypeRef → Prop
  | mk {t : TypeRef} (ns : IsText t.ns) (name : IsText t.name)
      (declaring : ∀ d, t.declaring = some d → TypeRef.HasTexts d) : TypeRef.HasTexts t

lemma TypeRef.hasTexts_unnamed : HasTexts { name := "" } :=
  .mk (IsAscii.isText (by decide)) (IsAscii.isText (by decide)) nofun

lemma TypeRef.hasTexts_of_ofPack {fuel : Nat} {cur t : TypeRef} {p : Pack} (hcur : cur.HasTexts)
    (h : ofPack fuel cur p = some t) : t.HasTexts := by
  induction fuel generalizing cur t p with
  | zero => cases h
  | succ fuel ih =>
    refine decodeRecord_induction (fun a k v b ha hb => ?_) hasTexts_unnamed hcur h
    obtain ⟨ns, name, declaring⟩ := ha
    split at hb
    · exact of_map_eq_some hb fun _ hs => .mk (isText_of_decodeText hs) name declaring
    · exact of_map_eq_some hb fun _ hs => .mk ns (isText_of_decodeText hs) declaring
    iterate 2 exact of_map_eq_some hb fun _ _ => .mk ns name declaring
    · exact of_map_eq_some hb fun _ hd => .mk ns name (decodeOption_induction ih hasTexts_unnamed declaring hd)
    · exact of_map_eq_some hb fun _ _ => .mk ns name declaring
    · exact some.inj hb ▸ .mk ns name declaring

lemma TypeRef.HasTexts.fullName {t : TypeRef} (h : t.HasTexts) : IsText t.fullName := by
  induction h with
  | @mk t ns name declaring ih =>
    cases t with
    | mk tns tname moduleName isValueType tdeclaring generic =>
    unfold TypeRef.fullName
    cases tdeclaring with
    | some d => exact (ih d rfl).join "/" name (by decide) (by decide)
    | none =>
      dsimp only
      split
      · exact name
      · exact ns.join "." name (by decide) (by decide)

structure MethodRef.HasTexts (m : MethodRef) : Prop where
  declaring : m.declaring.HasTexts
  name : IsText m.name
  params : ∀ s ∈ m.params, IsText s

namespace MethodRef

lemma hasTexts_unnamed : HasTexts ⟨{ name := "" }, "", [], ""⟩ :=
  ⟨TypeRef.hasTexts_unnamed, IsAscii.isText (by decide), nofun⟩

lemma hasTexts_of_ofPack {cur m : MethodRef} {p : Pack} (hcur : cur.HasTexts) (h : ofPack cur p = some m) :
    m.HasTexts := by
  refine decodeRecord_induction (fun a k v b ha hb => ?_) hasTexts_unnamed hcur h
  split at hb
  · exact of_map_eq_some hb fun _ ht => { ha with declaring := TypeRef.hasTexts_of_ofPack ha.declaring ht }
  · exact of_map_eq_some hb fun _ hs => { ha with name := isText_of_decodeText hs }
  · exact of_map_eq_some hb fun _ hps => { ha with params := decodeTexts_induction ha.params hps }
  · exact of_map_eq_some hb fun _ _ => { ha with }
  · exact some.inj hb ▸ ha

variable {m : MethodRef}

lemma HasTexts.fullName (h : m.HasTexts) : IsText m.fullName := by
  have hparams := isText_intercalate "," (by decide) (by decide) h.params
  have hempty : IsText "" := IsAscii.isText (by decide)
  have hname := h.declaring.fullName.join "::" h.name (by decide) (by decide)
  have hopen := hname.join "(" hparams (by decide) (by decide)
  have hclose := hopen.join ")" hempty (by decide) (by decide)
  rwa [String.append_empty] at hclose

lemma property?_eq_some_iff {property : String} :
    m.property? = some property ↔ property ≠ "" ∧ m.name = "get_" ++ property := by
  unfold property?
  rw [ite_none_right_eq_some, Bool.and_eq_true_iff, String.startsWith_string_iff, bne_iff_ne]
  constructor
  · rintro ⟨⟨⟨rest, hrest⟩, hne⟩, hproperty⟩
    have hname : m.name = getterStart ++ String.ofList rest := by
      rw [← String.toList_inj, ← hrest, String.toList_append, String.toList_ofList]
    have hdrop : m.name.toList.drop getterStart.length = rest := by
      rw [← hrest]
      exact drop_left
    obtain rfl : String.ofList rest = property := by rw [← hdrop, some.inj hproperty]
    refine ⟨fun hempty => hne ?_, hname⟩
    rw [hname, hempty, String.append_empty]
  · rintro ⟨hne, hname⟩
    have htoList : m.name.toList = getterStart.toList ++ property.toList := by
      rw [hname, String.toList_append]
      rfl
    refine ⟨⟨⟨property.toList, htoList.symm⟩, fun hstart => hne ?_⟩, ?_⟩
    · rwa [hstart, ← String.append_empty (s := getterStart), getterStart, String.append_right_inj, eq_comm] at hname
    · rw [htoList]
      show some (String.ofList (drop getterStart.toList.length _)) = _
      rw [drop_left, String.ofList_toList]

lemma HasTexts.property (h : m.HasTexts) {property : String} (hp : m.property? = some property) :
    IsText property := by
  have htext := h.name
  rw [(property?_eq_some_iff.1 hp).2, isText_ascii_append_iff (by decide)] at htext
  exact htext

lemma HasTexts.prettyName (h : m.HasTexts) : IsText m.prettyName := by
  refine h.declaring.fullName.join "." ?_ (by decide) (by decide)
  rcases hp : m.property? with _ | property
  · exact h.name
  · exact h.property hp

end MethodRef

/-! ### Definitions -/

structure Instruction.HasTexts (i : Instruction) : Prop where
  method : ∀ m, i.method = some m → m.HasTexts
  typeRef : ∀ t, i.typeRef = some t → t.HasTexts

lemma Instruction.hasTexts_empty : Instruction.HasTexts {} := ⟨nofun, nofun⟩

lemma Instruction.hasTexts_of_ofPack {cur i : Instruction} (hcur : cur.HasTexts) (h : ofPack cur p = some i) :
    i.HasTexts := by
  refine decodeRecord_induction (fun a k v b ha hb => ?_) hasTexts_empty hcur h
  split at hb
  iterate 2 exact of_map_eq_some hb fun _ _ => { ha with }
  · exact of_map_eq_some hb fun _ hm => { ha with
      method := decodeOption_induction MethodRef.hasTexts_of_ofPack MethodRef.hasTexts_unnamed ha.method hm }
  · exact of_map_eq_some hb fun _ ht => { ha with
      typeRef := decodeOption_induction TypeRef.hasTexts_of_ofPack TypeRef.hasTexts_unnamed ha.typeRef ht }
  iterate 2 exact of_map_eq_some hb fun _ _ => { ha with }
  · exact some.inj hb ▸ ha

structure MethodDef.HasTexts (m : MethodDef) : Prop where
  name : IsText m.name
  params : ∀ s ∈ m.params, IsText s
  body : ∀ i ∈ m.body, i.HasTexts

lemma MethodDef.hasTexts_empty : MethodDef.HasTexts {} := ⟨IsAscii.isText (by decide), nofun, nofun⟩

lemma MethodDef.hasTexts_of_ofPack {cur m : MethodDef} (hcur : cur.HasTexts) (h : ofPack cur p = some m) :
    m.HasTexts := by
  refine decodeRecord_induction (fun a k v b ha hb => ?_) hasTexts_empty hcur h
  split at hb
  · exact of_map_eq_some hb fun _ _ => { ha with }
  · exact of_map_eq_some hb fun _ hs => { ha with name := isText_of_decodeText hs }
  · exact of_map_eq_some hb fun _ hps => { ha with params := decodeTexts_induction ha.params hps }
  iterate 2 exact of_map_eq_some hb fun _ _ => { ha with }
  · exact of_map_eq_some hb fun _ his => { ha with
      body := decodeList_induction Instruction.hasTexts_of_ofPack Instruction.hasTexts_empty ha.body his }
  · exact some.inj hb ▸ ha

/-- Whether the names of a type, of its methods and of the types nested in it are texts. -/
inductive TypeDef.HasTexts : TypeDef → Prop
  | mk {t : TypeDef} (ref : t.ref.HasTexts) (methods : ∀ m ∈ t.methods, m.HasTexts)
      (nested : ∀ n ∈ t.nested, TypeDef.HasTexts n) : TypeDef.HasTexts t

lemma TypeDef.hasTexts_empty : TypeDef.HasTexts {} := .mk TypeRef.hasTexts_unnamed nofun nofun

lemma TypeDef.hasTexts_of_ofPack {fuel : Nat} {cur t : TypeDef} (hcur : cur.HasTexts)
    (h : ofPack fuel cur p = some t) : t.HasTexts := by
  induction fuel generalizing cur t p with
  | zero => cases h
  | succ fuel ih =>
    refine decodeRecord_induction (fun a k v b ha hb => ?_) hasTexts_empty hcur h
    obtain ⟨⟨ns, name, declaring⟩, methods, nested⟩ := ha
    -- one case for each field; a field without texts leaves what is known
    split at hb
    · exact of_map_eq_some hb fun _ hs => .mk (.mk (isText_of_decodeText hs) name declaring) methods nested
    · exact of_map_eq_some hb fun _ hs => .mk (.mk ns (isText_of_decodeText hs) declaring) methods nested
    iterate 2 exact of_map_eq_some hb fun _ _ => .mk (.mk ns name declaring) methods nested
    · exact of_map_eq_some hb fun _ hms => .mk (.mk ns name declaring)
        (decodeList_induction MethodDef.hasTexts_of_ofPack MethodDef.hasTexts_empty methods hms) nested
    · exact of_map_eq_some hb fun _ hts => .mk (.mk ns name declaring) methods
        (decodeList_induction ih hasTexts_empty nested hts)
    · exact some.inj hb ▸ .mk (.mk ns name declaring) methods nested

lemma TypeDef.HasTexts.linkType {t : TypeDef} (h : t.HasTexts) {outer : Option TypeRef}
    (houter : ∀ d, outer = some d → d.HasTexts) : (Module.linkType outer t).HasTexts := by
  induction h generalizing outer with
  | mk ref methods _ ih =>
    obtain ⟨ns, name, -⟩ := ref
    rw [Module.linkType_eq]
    refine .mk (.mk ns name houter) methods (forall_mem_map.2 fun n hn => ih n hn fun d hd => ?_)
    exact some.inj hd ▸ .mk ns name houter

/-! ### Symbols and modules -/

structure SequencePoint.HasTexts (p : SequencePoint) : Prop where
  document : IsText p.document
  line : IsLong p.line
  column : IsLong p.column

lemma SequencePoint.hasTexts_empty : SequencePoint.HasTexts {} :=
  ⟨IsAscii.isText (by decide), ⟨by decide, by decide⟩, by decide, by decide⟩

lemma SequencePoint.hasTexts_of_ofPack {cur s : SequencePoint} (hcur : cur.HasTexts) (h : ofPack cur p = some s) :
    s.HasTexts := by
  refine decodeRecord_induction (fun a k v b ha hb => ?_) hasTexts_empty hcur h
  split at hb
  · exact of_map_eq_some hb fun _ _ => { ha with }
  · exact of_map_eq_some hb fun _ ht => { ha with document := isText_of_decodeText ht }
  · exact of_map_eq_some hb fun _ hn => { ha with line := isLong_of_decodeLong hn }
  · exact of_map_eq_some hb fun _ hn => { ha with column := isLong_of_decodeLong hn }
  · exact of_map_eq_some hb fun _ _ => { ha with }
  · exact some.inj hb ▸ ha

namespace Symbols

variable {s : Symbols}

def HasTexts (s : Symbols) : Prop := ∀ e ∈ s.entries, ∀ p ∈ e.2.getD [], p.HasTexts

lemma hasTexts_empty : HasTexts {} := nofun

lemma HasTexts.set (h : s.HasTexts) (token : UInt32) {ps : Option (List SequencePoint)}
    (hps : ∀ p ∈ ps.getD [], p.HasTexts) : (s.set token ps).HasTexts := by
  have hentry : ∀ es : List (UInt32 × Option (List SequencePoint)),
      (∀ e ∈ es, ∀ p ∈ e.2.getD [], p.HasTexts) → ∀ e ∈ setEntry token ps es, ∀ p ∈ e.2.getD [], p.HasTexts := by
    intro es hes
    induction es with
    | nil => exact fun e he => mem_singleton.1 he ▸ hps
    | cons e es ih =>
      obtain ⟨he, hes⟩ := forall_mem_cons.1 hes
      rw [setEntry]
      split
      · exact forall_mem_cons.2 ⟨hps, hes⟩
      · exact forall_mem_cons.2 ⟨he, ih hes⟩
  exact hentry s.entries h

lemma hasTexts_of_methodsOfPack {cur : Symbols} {p : Pack} (hcur : cur.HasTexts) (h : methodsOfPack cur p = some s) :
    s.HasTexts := by
  have hentries : ∀ (es : List (Pack × Pack)) (s' : Symbols), s'.HasTexts →
      es.foldlM (fun (s : Symbols) (x : Pack × Pack) => do
        let token ← x.1.decodeWord
        let ps ← Pack.decodeList {} SequencePoint.ofPack [] x.2
        some (s.set token ps)) s' = some s → s.HasTexts := by
    intro es s' hs' hs
    refine foldlM_induction (fun a x b ha hb => ?_) hs' hs
    obtain ⟨token, -, hb⟩ := bind_eq_some_iff.1 hb
    obtain ⟨ps, hps, hb⟩ := bind_eq_some_iff.1 hb
    obtain rfl := Option.some.inj hb
    exact ha.set token (decodeList_induction SequencePoint.hasTexts_of_ofPack
      SequencePoint.hasTexts_empty (forall_mem_nil _) hps)
  unfold methodsOfPack at h
  split at h
  iterate 2 exact Option.some.inj h ▸ nofun
  iterate 2 exact hentries _ { cur with methods := some cur.entries } hcur h
  · cases h

lemma hasTexts_of_ofPack {cur : Symbols} {p : Pack} (hcur : cur.HasTexts) (h : ofPack cur p = some s) :
    s.HasTexts := by
  refine decodeRecord_induction (fun a k v b ha hb => ?_) hasTexts_empty hcur h
  split at hb
  · exact of_map_eq_some hb fun _ _ => ha
  · exact hasTexts_of_methodsOfPack ha hb
  · exact some.inj hb ▸ ha

lemma hasTexts_of_decode {bs : Bytes} (h : decode bs = .ok s) : s.HasTexts := by
  unfold decode at h
  split at h
  · rename_i hs
    cases h
    obtain ⟨⟨p, rest⟩, -, hs⟩ := bind_eq_some_iff.1 hs
    exact hasTexts_of_ofPack hasTexts_empty hs
  · cases h

lemma entries_normalize (s : Symbols) : s.normalize.entries =
      s.entries.map fun e => (e.1, e.2.map (·.mergeSort fun a b => a.offset ≤ b.offset)) := by
  rcases s with ⟨moduleName, _ | es⟩ <;> rfl

lemma HasTexts.normalize (h : s.HasTexts) : s.normalize.HasTexts := by
  intro e he p hp
  rw [entries_normalize] at he
  obtain ⟨⟨token, _ | ps⟩, hmem, rfl⟩ := mem_map.1 he
  · cases hp
  · have hp : p ∈ ps.mergeSort fun a b => a.offset ≤ b.offset := hp
    exact h _ hmem p (mem_mergeSort.1 hp)

end Symbols

structure Module.HasTexts (m : Module) : Prop where
  name : IsText m.name
  types : ∀ t ∈ m.types.getD [], t.HasTexts
  symbols : ∀ s, m.symbols = some s → s.HasTexts

lemma Module.hasTexts_of_ofPlainPack {m : Module} {p : Pack} (h : ofPlainPack p = some m) : m.HasTexts := by
  have hempty : Module.HasTexts {} := ⟨IsAscii.isText (by decide), nofun, nofun⟩
  refine decodeRecord_induction (fun a k v b ha hb => ?_) hempty hempty h
  split at hb
  · exact of_map_eq_some hb fun _ _ => { ha with }
  · exact of_map_eq_some hb fun _ hs => { ha with name := isText_of_decodeText hs }
  iterate 3 exact of_map_eq_some hb fun _ _ => { ha with }
  · exact of_map_eq_some hb fun _ hts => { ha with
      types := decodeList_induction TypeDef.hasTexts_of_ofPack TypeDef.hasTexts_empty ha.types hts }
  · exact of_map_eq_some hb fun _ hs => { ha with
      symbols := decodeOption_induction Symbols.hasTexts_of_ofPack Symbols.hasTexts_empty ha.symbols hs }
  · exact some.inj hb ▸ ha

lemma Module.HasTexts.link {m : Module} (h : m.HasTexts) : m.link.HasTexts where
  name := h.name
  symbols := h.symbols
  types := by
    obtain ⟨-, htypes, -⟩ := h
    rw [Module.link]
    cases hts : m.types with
    | none => exact List.forall_mem_nil _
    | some ts =>
      rw [hts] at htypes
      rw [map_some, getD_some, linkTypes_eq_map, List.forall_mem_map]
      exact fun t ht => (htypes t ht).linkType fun d hd => absurd hd.symm (some_ne_none d)

lemma Module.hasTexts_of_decode {bs : Bytes} {m : Module} (h : decode bs = .ok m) : m.HasTexts := by
  unfold decode at h
  split at h
  · cases h
  rename_i hm
  split at h
  · cases h
  cases h
  obtain ⟨⟨p, rest⟩, -, hm⟩ := bind_eq_some_iff.1 hm
  obtain ⟨m', hm', hm⟩ := bind_eq_some_iff.1 hm
  refine HasTexts.link ?_
  split at hm
  · exact hasTexts_of_ofPlainPack hm
  · exact some.inj hm ▸ hasTexts_of_ofPlainPack hm'

/-! ### Module files -/

lemma Symbols.eq_of_load {d : Disk} {path : String} {s : Symbols} (h : load d path = .ok s) :
    ∃ bs s', d.read path = .ok bs ∧ decode bs = .ok s' ∧ s = s'.normalize := by
  unfold load at h
  split at h
  · split at h <;> cases h
  · rename_i bs hbs
    split at h
    · rename_i s' hs'
      exact ⟨bs, s', hbs, hs', (Except.ok.inj h).symm⟩
    · cases h

namespace LoadedModule

def contentOf (bytes : Bytes) (symbolBytes : Option Bytes) : Option Module :=
  (Module.decode bytes).toOption.bind fun content =>
    match content.symbols, symbolBytes with
    | some s, _ => some { content with symbols := some s.normalize }
    | none, none => some content
    | none, some bs =>
      (Symbols.decode bs).toOption.map fun s => { content with symbols := some s.normalize.normalize }

/-- A symbol file that is missing cannot be read; one that is there and holds no symbols is not
missing. -/
lemma read_of_isMissingFile {d : Disk} {path : String} {f : Failure} (h : Symbols.load d path = .error f)
    (hf : f.isMissingFile) : (d.read path).toOption = none := by
  unfold Symbols.load at h
  split at h
  · rename_i e he
    rw [he]
    rfl
  · split at h
    · cases h
    · rename_i bs hread g hg
      have hmalformed : g = .malformed "not a symbol table" := by
        unfold Symbols.decode at hg
        split at hg
        · cases hg
        · exact (Except.error.inj hg).symm
      cases h
      rw [hmalformed] at hf
      cases hf

lemma content_of_load {d : Disk} {path : String} {m : LoadedModule} (h : load d path = .ok m) :
    m.path = path ∧ ∃ bytes, (d.read path).toOption = some bytes ∧
      contentOf bytes (d.read (Module.symbolsPath path)).toOption = some m.content := by
  rcases hread : d.read path with e | bytes
  · by_cases he : (e.action == "read") = true <;> simp [load, loadAlone, hread, he, Except.bind] at h
  rcases hdecode : Module.decode bytes with f | content
  · simp only [load, loadAlone, hread, hdecode, Except.map, Except.bind] at h
    cases h
  simp only [load, loadAlone, hread, hdecode, Except.map, Except.bind, attachSymbols] at h
  -- the file of symbols counts only where the module has none of its own
  rcases hsymbols : content.symbols with _ | s
  · rcases hload : Symbols.load d (Module.symbolsPath path) with f | s
    · by_cases hf : f.isMissingFile = true
      · simp only [hsymbols, hload, hf, if_true, Except.ok.injEq] at h
        subst h
        refine ⟨rfl, bytes, rfl, ?_⟩
        rw [read_of_isMissingFile hload hf]
        simp only [contentOf, hdecode, Except.toOption, bind_some, hsymbols, map_none]
        rw [← hsymbols]
      · simp only [hsymbols, hload, hf] at h
        cases h
    · obtain ⟨bs, s', hbs, hs', rfl⟩ := Symbols.eq_of_load hload
      simp only [hsymbols, hload, Except.ok.injEq] at h
      subst h
      refine ⟨rfl, bytes, rfl, ?_⟩
      rw [hbs]
      simp only [contentOf, hdecode, Except.toOption, bind_some, hsymbols, hs', map_some]
  · simp only [hsymbols, Except.ok.injEq] at h
    subst h
    refine ⟨rfl, bytes, rfl, ?_⟩
    simp only [contentOf, hdecode, Except.toOption, bind_some, hsymbols, map_some]

lemma hasTexts_of_contentOf {bytes : Bytes} {symbolBytes : Option Bytes} {content : Module}
    (h : contentOf bytes symbolBytes = some content) : content.HasTexts := by
  obtain ⟨m, hm, h⟩ := bind_eq_some_iff.1 h
  have htexts : m.HasTexts := by
    rcases hd : Module.decode bytes with f | m'
    · rw [hd] at hm
      cases hm
    · rw [hd] at hm
      exact some.inj hm ▸ Module.hasTexts_of_decode hd
  rcases hs : m.symbols with _ | s
  · cases symbolBytes with
    | none =>
      simp only [hs] at h
      exact some.inj h ▸ htexts
    | some bs =>
      simp only [hs] at h
      obtain ⟨s, hs, rfl⟩ := map_eq_some_iff.1 h
      refine { htexts with symbols := ?_ }
      rintro t ⟨⟩
      rcases hd : Symbols.decode bs with f | s'
      · rw [hd] at hs
        cases hs
      · rw [hd] at hs
        exact some.inj hs ▸ (Symbols.hasTexts_of_decode hd).normalize.normalize
  · simp only [hs] at h
    cases h
    refine { htexts with symbols := ?_ }
    rintro t ⟨⟩
    exact (htexts.symbols s hs).normalize

end LoadedModule

end BytecodeAudit
