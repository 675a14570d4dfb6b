import BytecodeAudit.Proofs.Pack.ReadWrite
import BytecodeAudit.Proofs.Text.Lossless

/-!
# Records read back

A record is written as a list of fields, each with its name and a value or nothing. Reading it sets
the fields that are present, one after another (`decodeRecord_record`), so reading back a record is
one step for each field (`ReadsAs.put`). `IsPlain` says that a value can be written, and that no
record in it repeats a name.
-/

namespace BytecodeAudit.Pack

open List Option

variable {β : Type} {fs : List (String × Option Pack)} {toPack : β → Pack} {ys : List β} {item : β → Pack → Option β}
  {xs : List Pack} {es : List (Pack × Pack)} {s : String} {fields : List String} {tags : Prop} {empty : β} {n : Int}

/-! ### Lists and maps item by item -/

lemma itemsAsRead_eq_map (xs : List Pack) : itemsAsRead xs = xs.map asRead := by
  induction xs with
  | nil => rfl
  | cons x xs ih => rw [itemsAsRead, ih, map_cons]

lemma entriesAsRead_eq_map (es : List (Pack × Pack)) :
    entriesAsRead es = es.map fun (k, v) => (k.asRead, v.asRead) := by
  induction es with
  | nil => rfl
  | cons e es ih => rw [entriesAsRead, ih, map_cons]

lemma iff_forall_mem {α : Type} {F : List α → Prop} {P : α → Prop} {xs : List α} (hnil : F [])
    (hcons : ∀ x xs, F (x :: xs) ↔ P x ∧ F xs) : F xs ↔ ∀ x ∈ xs, P x := by
  induction xs with
  | nil => simp [hnil]
  | cons x xs ih => rw [hcons, ih, forall_mem_cons]

lemma areWritable_iff : AreWritable tags xs ↔ ∀ x ∈ xs, x.IsWritable tags :=
  iff_forall_mem trivial fun _ _ => .rfl

lemma areEntriesWritable_iff : AreEntriesWritable tags es ↔ ∀ e ∈ es, e.1.IsWritable tags ∧ e.2.IsWritable tags :=
  iff_forall_mem trivial fun _ _ => and_assoc.symm

lemma anyRepeating_eq_false_iff : anyRepeating xs = false ↔ ∀ x ∈ xs, x.isRepeating = false :=
  iff_forall_mem (F := (anyRepeating · = false)) rfl fun _ _ => Bool.or_eq_false_iff

lemma anyEntryRepeating_eq_false_iff : anyEntryRepeating es = false ↔ ∀ e ∈ es, e.2.isRepeating = false :=
  iff_forall_mem (F := (anyEntryRepeating · = false)) rfl fun _ _ => Bool.or_eq_false_iff

lemma le_iff_of_max {α : Type} {f : List α → Nat} {g : α → Nat} (hnil : f [] = 0)
    (hcons : ∀ x xs, f (x :: xs) = max (g x) (f xs)) {xs : List α} {n : Nat} : f xs ≤ n ↔ ∀ x ∈ xs, g x ≤ n := by
  induction xs with
  | nil => simp [hnil]
  | cons x xs ih => rw [hcons, Nat.max_le, ih, forall_mem_cons]

lemma depth_le_depthOfItems {x : Pack} (h : x ∈ xs) : x.depth ≤ depthOfItems xs :=
  (le_iff_of_max rfl fun _ _ => rfl).1 (Nat.le_refl (depthOfItems xs)) x h

lemma depth_le_depthOfEntries {e : Pack × Pack} (h : e ∈ es) : e.2.depth ≤ depthOfEntries es :=
  (Nat.max_le.1 ((le_iff_of_max rfl fun _ _ => rfl).1 (Nat.le_refl (depthOfEntries es)) e h)).2

/-! ### Names and texts -/

structure IsShortText (s : String) : Prop where
  isText : Text.IsText s
  length_lt : (Text.toBytes s).length < 0x100000000

def IsFieldName (k : String) : Prop := k.toList.length < 0x20 ∧ Text.IsAscii k

instance (k : String) : Decidable (IsFieldName k) :=
  inferInstanceAs (Decidable (k.toList.length < 0x20 ∧ Text.IsAscii k))

lemma IsFieldName.isShortText {k : String} (h : IsFieldName k) : IsShortText k where
  isText := h.2.isText
  length_lt := by
    have hle := Text.length_toBytes_le k
    have hlt := h.1
    omega

lemma isShortText_empty : IsShortText "" :=
  IsFieldName.isShortText (by decide)

def IsLong (n : Int) : Prop := -0x8000000000000000 ≤ n ∧ n < 0x8000000000000000

instance (n : Int) : Decidable (IsLong n) :=
  inferInstanceAs (Decidable (-0x8000000000000000 ≤ n ∧ n < 0x8000000000000000))

structure AreFieldNames (fields : List String) : Prop where
  nodup : fields.Nodup
  length_lt : fields.length < 0x20
  isFieldName : ∀ k ∈ fields, IsFieldName k

/-! ### Plain values -/

/-- Whether a value can be written and reads back with no name repeated in a record. -/
structure IsPlain (tags : Prop) (p : Pack) : Prop where
  writable : p.IsWritable tags
  unrepeated : p.asRead.isRepeating = false

section

variable {tags : Prop}

@[simp] lemma isPlain_nil : IsPlain tags .nil := ⟨trivial, rfl⟩

@[simp] lemma isPlain_bool (b : Bool) : IsPlain tags (.bool b) := ⟨trivial, rfl⟩

@[simp] lemma isPlain_text (h : IsShortText s) : IsPlain tags (text s) := ⟨h.length_lt, rfl⟩

@[simp] lemma isPlain_word (n : UInt32) : IsPlain tags (word n) := by
  have h := n.toNat_lt
  exact ⟨⟨by omega, by omega⟩, rfl⟩

lemma isWritableInt_shortest (h : IsLong n) : IsWritableInt n .shortest :=
  ⟨h.1, Int.lt_trans h.2 (by decide)⟩

@[simp] lemma isPlain_small (h : IsLong n) : IsPlain tags (small n) := ⟨isWritableInt_shortest h, rfl⟩

@[simp] lemma isPlain_long (h : IsLong n) : IsPlain tags (long n) := ⟨h, rfl⟩

lemma isPlain_array (hlen : xs.length < 0x100000000) (h : ∀ x ∈ xs, IsPlain tags x) : IsPlain tags (.array xs) where
  writable := ⟨hlen, areWritable_iff.2 fun x hx => (h x hx).writable⟩
  unrepeated := by
    rw [asRead, isRepeating, anyRepeating_eq_false_iff, itemsAsRead_eq_map]
    intro y hy
    obtain ⟨x, hx, rfl⟩ := mem_map.1 hy
    exact (h x hx).unrepeated

lemma isPlain_map_word {es : List (UInt32 × Pack)} (hlen : es.length < 0x100000000)
    (h : ∀ e ∈ es, IsPlain tags e.2) : IsPlain tags (.map (es.map fun (n, p) => (word n, p))) where
  writable := by
    refine ⟨by rwa [length_map], areEntriesWritable_iff.2 fun e he => ?_⟩
    obtain ⟨⟨n, p⟩, hp, rfl⟩ := List.mem_map.1 he
    exact ⟨(isPlain_word n).writable, (h _ hp).writable⟩
  unrepeated := by
    rw [asRead, entriesAsRead_eq_map, List.map_map, isRepeating, filterMap_map]
    have hnames : (es.filterMap fun e => decodeText (word e.1).asRead) = [] := filterMap_eq_nil_iff.2 fun _ _ => rfl
    rw [Bool.or_eq_false_iff]
    refine ⟨?_, anyEntryRepeating_eq_false_iff.2 fun e he => ?_⟩
    · exact congrArg (fun l : List String => l.eraseDups.length != l.length) hnames
    · obtain ⟨⟨n, p⟩, hp, rfl⟩ := List.mem_map.1 he
      exact (h _ hp).unrepeated

end

@[simp] def IsPlainField (tags : Prop) (v : Option Pack) : Prop := ∀ p, v = some p → IsPlain tags p

/-! ### Records -/

lemma eraseDups_of_nodup {xs : List String} (h : xs.Nodup) : xs.eraseDups = xs := by
  induction xs with
  | nil => rfl
  | cons x xs ih =>
    obtain ⟨hx, hxs⟩ := nodup_cons.1 h
    have hfilter : xs.filter (fun y => !y == x) = xs :=
      filter_eq_self.2 fun y hy => by
        rw [Bool.not_eq_true', beq_eq_false_iff_ne]
        rintro rfl
        exact hx hy
    rw [eraseDups_cons, hfilter, ih hxs]

lemma presentNames_sublist (fs : List (String × Option Pack)) :
    List.Sublist (fs.filterMap fun f => f.2.map fun _ => f.1) (fs.map Prod.fst) := by
  induction fs with
  | nil => exact List.Sublist.refl []
  | cons f fs ih =>
    obtain ⟨k, _ | p⟩ := f
    · exact ih.cons k
    · exact ih.cons_cons k

lemma asRead_record (fs : List (String × Option Pack)) :
    (record fs).asRead = .map (fs.filterMap fun (k, v) => v.map fun p => (text k, p.asRead)) := by
  rw [record, asRead, entriesAsRead_eq_map, map_filterMap]
  congr 2
  funext ⟨k, v⟩
  cases v <;> rfl

lemma decodeText_text (h : Text.IsText s) : decodeText (text s).asRead = some s :=
  congrArg some h

lemma isWritable_record (hfields : AreFieldNames fields) (hfs : fs.map Prod.fst = fields)
    (h : ∀ f ∈ fs, ∀ p, f.2 = some p → p.IsWritable tags) : (record fs).IsWritable tags := by
  have hlen := hfields.length_lt
  rw [← hfs, length_map] at hlen
  refine ⟨Nat.lt_of_le_of_lt (length_filterMap_le ..) (by omega), areEntriesWritable_iff.2 fun e he => ?_⟩
  obtain ⟨⟨k, v⟩, hf, hv⟩ := mem_filterMap.1 he
  obtain ⟨p, rfl, rfl⟩ := map_eq_some_iff.1 hv
  have hk : IsFieldName k := hfields.isFieldName k (hfs ▸ mem_map_of_mem hf)
  exact ⟨hk.isShortText.length_lt, h _ hf p rfl⟩

lemma isPlain_record (hfields : AreFieldNames fields) (hfs : fs.map Prod.fst = fields)
    (h : ∀ f ∈ fs, IsPlainField tags f.2) : IsPlain tags (record fs) where
  writable := isWritable_record hfields hfs fun f hf p hp => (h f hf p hp).writable
  unrepeated := by
    rw [asRead_record, isRepeating, filterMap_filterMap, Bool.or_eq_false_iff]
    constructor
    · -- the names that are read are some of the names of the fields, in their order
      have hnames : (fs.filterMap fun x => (Option.map (fun p => (text x.1, p.asRead)) x.2).bind
          fun e => decodeText e.1) = fs.filterMap fun x => x.2.map fun _ => x.1 := by
        refine filterMap_congr fun f hf => ?_
        obtain ⟨k, _ | p⟩ := f
        · rfl
        · exact decodeText_text (hfields.isFieldName k (hfs ▸ mem_map_of_mem hf)).isShortText.isText
      refine (congrArg (fun l : List String => l.eraseDups.length != l.length) hnames).trans ?_
      rw [eraseDups_of_nodup ((presentNames_sublist fs).nodup (hfs ▸ hfields.nodup)), bne_self_eq_false]
    · refine anyEntryRepeating_eq_false_iff.2 fun e he => ?_
      obtain ⟨⟨k, v⟩, hf, hv⟩ := mem_filterMap.1 he
      obtain ⟨p, rfl, rfl⟩ := map_eq_some_iff.1 hv
      exact (h _ hf p rfl).unrepeated

def putField {α : Type} (set : α → String → Pack → Option α) (a : α) : String × Option Pack → Option α
  | (_, none) => some a
  | (k, some p) => set a k p.asRead

lemma decodeRecord_record {α : Type} (hfields : AreFieldNames fields) (hfs : fs.map Prod.fst = fields)
    (set : α → String → Pack → Option α) (empty cur : α) :
    decodeRecord fields set empty cur (record fs).asRead = fs.foldlM (putField set) cur := by
  have hmem : ∀ f ∈ fs, f.1 ∈ fields := fun f hf => hfs ▸ mem_map_of_mem hf
  clear hfs
  rw [asRead_record, decodeRecord]
  induction fs generalizing cur with
  | nil => rfl
  | cons f fs ih =>
    have hfs : ∀ f ∈ fs, f.1 ∈ fields := fun g hg => hmem g (mem_cons_of_mem f hg)
    obtain ⟨k, _ | p⟩ := f
    · exact ih cur hfs
    · have hk : k ∈ fields := hmem (k, some p) mem_cons_self
      have hname : decodeText (text k) = some k := decodeText_text (hfields.isFieldName k hk).isShortText.isText
      simp only [filterMap_cons, map_some, foldlM_cons, putField, hname,
        bind_eq_bind, bind_some, contains_iff_mem.2 hk, if_true]
      exact congrArg (Option.bind _) (funext fun a => ih a hfs)

/-- What reading back a field gives: the content, which a field that is left out stands for. -/
structure ReadsAs {γ : Type} (dec : Pack → Option γ) (absent : γ) (v : Option Pack) (y : γ) : Prop where
  of_some : ∀ p, v = some p → dec p.asRead = some y
  of_none : v = none → y = absent

/-- One step of reading a record back. Its last two hypotheses hold by computation for most
fields. -/
lemma ReadsAs.put {α γ : Type} {set : α → String → Pack → Option α} {a : α} {r : Option α} {k : String}
    {dec : Pack → Option γ} {absent y : γ} {v : Option Pack} {f : γ → α} (h : ReadsAs dec absent v y)
    (hrest : fs.foldlM (putField set) (f y) = r) (hset : ∀ p, set a k p = (dec p).map f := by exact fun _ => rfl)
    (habsent : f absent = a := by rfl) :
    ((k, v) :: fs).foldlM (putField set) a = r := by
  have hput : putField set a (k, v) = some (f y) := by
    cases v with
    | none => rw [putField, h.of_none rfl, habsent]
    | some p => rw [putField, hset, h.of_some p rfl, map_some]
  rw [foldlM_cons, hput, ← hrest]
  rfl

/-! ### Kinds of fields -/

section

variable {γ : Type} {dec : Pack → Option γ} {absent y : γ} {p : Pack}

lemma readsAs_some (h : dec p.asRead = some y) : ReadsAs dec absent (some p) y where
  of_some _ hq := some.inj hq ▸ h
  of_none := nofun

lemma readsAs_ite {c : Bool} (h : dec p.asRead = some y) (hc : c → y = absent) :
    ReadsAs dec absent (if c then none else some p) y := by
  cases c with
  | false => exact readsAs_some h
  | true => exact ⟨nofun, fun _ => hc rfl⟩

end

lemma readsAs_text (h : Text.IsText s) : ReadsAs decodeText "" (some (text s)) s :=
  readsAs_some (decodeText_text h)

lemma readsAs_text? (h : Text.IsText s) : ReadsAs decodeText "" (text? s) s :=
  readsAs_ite (decodeText_text h) String.isEmpty_iff.1

lemma readsAs_bool (b : Bool) : ReadsAs decodeBool false (some (.bool b)) b := readsAs_some rfl

lemma readsAs_true? (b : Bool) : ReadsAs decodeBool false (true? b) b := by
  cases b with
  | false => exact ⟨nofun, fun _ => rfl⟩
  | true => exact readsAs_some rfl

lemma readsAs_word (n : UInt32) : ReadsAs decodeWord 0 (some (word n)) n := by
  have hn : Word.unsigned 32 n.toNat = n.toNat := by
    have := n.toNat_lt
    simp only [Word.unsigned, Word.span, Nat.pow_eq]
    omega
  refine readsAs_some (congrArg some ?_)
  rw [hn, UInt32.ofNat_toNat]

lemma decodeLong_int (width : PackWidth) (h : IsLong n) : decodeLong (int n width).asRead = some n :=
  congrArg some (Int.bmod_eq_of_le (by simpa [Word.span] using h.1) (by simpa [Word.span] using h.2))

lemma readsAs_nonempty? {dec : Pack → Option (List β)} (h : dec (array (ys.map toPack)).asRead = some ys) :
    ReadsAs dec [] (nonempty? (ys.map toPack)) ys :=
  readsAs_ite h fun hnil => map_eq_nil_iff.1 (isEmpty_iff.1 hnil)

lemma readsAs_option {item : Pack → β → Pack → Option β} {x : Option β}
    (h : ∀ y, x = some y → item (toPack y).asRead empty (toPack y).asRead = some y)
    (hnil : ∀ y, (toPack y).asRead ≠ .nil) :
    ReadsAs (fun p => decodeOption empty (item p) none p) none (x.map toPack) x where
  of_some p hp := by
    obtain ⟨y, rfl, rfl⟩ := map_eq_some_iff.1 hp
    rw [decodeOption, getD_none, h y rfl, map_some]
    exact hnil y
  of_none hp := map_eq_none_iff.1 hp

lemma record_asRead_ne_nil (fs : List (String × Option Pack)) : (record fs).asRead ≠ .nil := by
  rw [asRead_record]
  exact nofun

section

/-- Items that are read back up to what a function drops. -/
lemma decodeItems_map {g : β → β} (h : ∀ y ∈ ys, item empty (toPack y).asRead = some (g y)) :
    decodeItems empty item [] (itemsAsRead (ys.map toPack)) = some (ys.map g) := by
  induction ys with
  | nil => rfl
  | cons y ys ih =>
    have hy := h y mem_cons_self
    have hys := ih fun z hz => h z (mem_cons_of_mem y hz)
    simp only [map_cons, itemsAsRead, decodeItems, head?_nil, getD_none, tail_nil, hy, hys, bind_eq_bind, bind_some]

lemma readsAs_map {g : β → β} (h : ∀ y ∈ ys, item empty (toPack y).asRead = some (g y)) :
    ReadsAs (decodeList empty item []) (some []) (nonempty? (ys.map toPack)) (some (ys.map g)) := by
  refine readsAs_ite ?_ fun hnil => congrArg some (map_eq_nil_iff.2 (map_eq_nil_iff.1 (isEmpty_iff.1 hnil)))
  rw [asRead, decodeList, decodeItems_map h, map_some]

variable (h : ∀ y ∈ ys, item empty (toPack y).asRead = some y)
include h

lemma decodeList_map : decodeList empty item [] (array (ys.map toPack)).asRead = some (some ys) := by
  rw [asRead, decodeList, decodeItems_map (g := id) h, List.map_id, map_some]

lemma readsAs_list : ReadsAs (decodeList empty item []) (some []) (nonempty? (ys.map toPack)) (some ys) :=
  readsAs_ite (decodeList_map h) fun hnil => congrArg some (map_eq_nil_iff.1 (isEmpty_iff.1 hnil))

end

section

variable {α γ : Type} {f : α → Option γ} {xs : List α} {zs : List γ}

lemma mapM_eq_some_iff : xs.mapM f = some zs ↔ xs.map f = zs.map some := by
  induction xs generalizing zs with
  | nil => cases zs <;> simp
  | cons x xs ih =>
    rw [mapM_cons, map_cons]
    cases zs with
    | nil => simp [bind_eq_some_iff]
    | cons z zs => simp [← ih, bind_eq_some_iff]

lemma exists_of_mem_mapM (h : xs.mapM f = some zs) {z : γ} (hz : z ∈ zs) : ∃ x ∈ xs, f x = some z :=
  mem_map.1 (mapM_eq_some_iff.1 h ▸ mem_map_of_mem hz)

end

lemma decodeTexts_map {ss cur : List String} (h : ∀ s ∈ ss, Text.IsText s) :
    decodeTexts cur (array (ss.map text)).asRead = some ss := by
  rw [asRead, decodeTexts, itemsAsRead_eq_map, mapM_eq_some_iff, List.map_map, List.map_map]
  exact map_congr_left fun s hs => decodeText_text (h s hs)

/-! ### Depth -/

lemma exists_fuel_of_record {fuel : Nat} (h : (record fs).asRead.depth ≤ fuel) :
    ∃ n, fuel = n + 1 ∧ ∀ k p, (k, some p) ∈ fs → p.asRead.depth ≤ n := by
  rw [asRead_record, depth] at h
  obtain ⟨n, rfl⟩ := Nat.exists_eq_succ_of_ne_zero (show fuel ≠ 0 by omega)
  refine ⟨n, rfl, fun k p hp => ?_⟩
  have hmem : (text k, p.asRead) ∈ fs.filterMap fun (k, v) => v.map fun p => (text k, p.asRead) :=
    mem_filterMap.2 ⟨(k, some p), hp, rfl⟩
  exact Nat.le_trans (depth_le_depthOfEntries hmem) (Nat.le_of_succ_le_succ h)

lemma depth_le_of_mem_nonempty? {n : Nat} {x : Pack} (h : ∀ k p, (k, some p) ∈ fs → p.asRead.depth ≤ n) (k : String)
    (hk : (k, nonempty? xs) ∈ fs) (hx : x ∈ xs) : x.asRead.depth ≤ n := by
  have hxs : nonempty? xs = some (.array xs) := if_neg (by simpa using ne_nil_of_mem hx)
  have hlist := h k (.array xs) (hxs ▸ hk)
  rw [asRead, depth, itemsAsRead_eq_map] at hlist
  exact Nat.le_trans (depth_le_depthOfItems (mem_map_of_mem hx)) (Nat.le_of_succ_le hlist)

end BytecodeAudit.Pack
