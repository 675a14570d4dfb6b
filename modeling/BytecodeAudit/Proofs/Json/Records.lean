import Mathlib.Data.List.Nodup
import BytecodeAudit.Proofs.Json.RoundTrip
import BytecodeAudit.Proofs.Pack.Records

/-!
# Records in JSON

A record is written as an object of the fields that are present. Reading it sets these fields, one
after another (`decodeFields_compactFields`), so reading back a record is one step for each field
(`ReadsAs.put`). A written value is read back from its text without being settled first if it is
clean and no object in it repeats a name (`IsPlain`).
-/

namespace BytecodeAudit.Json

open List Option

variable {β α : Type} {fs : List (String × Option Json)} {xs : List Json} {toJson : β → Json} {k s : String}
  {ys : List β} {v : Json} {known : List String} {n : Nat}

/-! ### Items and fields one by one -/

lemma areClean_iff : AreClean xs ↔ ∀ x ∈ xs, x.IsClean :=
  Pack.iff_forall_mem trivial fun _ _ => .rfl

lemma haveClean_iff {fs : List (String × Json)} : HaveClean fs ↔ ∀ f ∈ fs, Text.IsValid f.1 ∧ f.2.IsClean :=
  Pack.iff_forall_mem trivial fun _ _ => and_assoc.symm

lemma anyRepeating_eq_false_iff : anyRepeating xs = false ↔ ∀ x ∈ xs, x.isRepeating = false :=
  Pack.iff_forall_mem (F := (anyRepeating · = false)) rfl fun _ _ => Bool.or_eq_false_iff

lemma anyFieldRepeating_eq_false_iff {fs : List (String × Json)} :
    anyFieldRepeating fs = false ↔ ∀ f ∈ fs, f.2.isRepeating = false :=
  Pack.iff_forall_mem (F := (anyFieldRepeating · = false)) rfl fun _ _ => Bool.or_eq_false_iff

lemma nestingOfItems_le_iff : nestingOfItems xs ≤ n ↔ ∀ x ∈ xs, x.nesting ≤ n :=
  Pack.le_iff_of_max rfl fun _ _ => rfl

lemma nestingOfFields_le_iff {fs : List (String × Json)} : nestingOfFields fs ≤ n ↔ ∀ f ∈ fs, f.2.nesting ≤ n :=
  Pack.le_iff_of_max rfl fun _ _ => rfl

lemma nesting_le_nestingOfItems {x : Json} (h : x ∈ xs) : x.nesting ≤ nestingOfItems xs :=
  nestingOfItems_le_iff.1 (Nat.le_refl _) x h

lemma nesting_le_nestingOfFields {f : String × Json} {fs : List (String × Json)} (h : f ∈ fs) :
    f.2.nesting ≤ nestingOfFields fs :=
  nestingOfFields_le_iff.1 (Nat.le_refl _) f h

/-! ### Fields that are present -/

@[simp] lemma text?_eq_some_iff : text? s = some v ↔ s ≠ "" ∧ v = .string s := by
  rw [text?, eq_comm (a := v)]
  by_cases h : s = "" <;> simp [h]

@[simp] lemma nonzero?_eq_some_iff {n : Int} : nonzero? n = some v ↔ n ≠ 0 ∧ v = .int n := by
  rw [nonzero?, eq_comm (a := v)]
  by_cases h : n = 0 <;> simp [h]

@[simp] lemma true?_eq_some_iff {b : Bool} : true? b = some v ↔ b ∧ v = .bool true := by
  cases b <;> simp [true?, eq_comm]

@[simp] lemma nonempty?_eq_some_iff : nonempty? xs = some v ↔ xs ≠ [] ∧ v = .array xs := by
  cases xs <;> simp [nonempty?, eq_comm]

lemma mem_compactFields {f : String × Json} :
    f ∈ (fs.filterMap fun (k, v) => v.map (k, ·)) ↔ (f.1, some f.2) ∈ fs := by
  rw [mem_filterMap]
  constructor
  · rintro ⟨⟨k, v⟩, hmem, hv⟩
    obtain ⟨p, rfl, rfl⟩ := map_eq_some_iff.1 hv
    exact hmem
  · intro hmem
    exact ⟨(f.1, some f.2), hmem, rfl⟩

lemma field?_compactFields_eq_some_iff (hfs : (fs.map Prod.fst).Nodup) {name : String} :
    (compactFields fs).field? name = some v ↔ (name, some v) ∈ fs := by
  rw [compactFields, field?, map_eq_some_iff]
  constructor
  · rintro ⟨⟨k, w⟩, hfind, rfl⟩
    have hk := find?_some hfind
    obtain rfl : k = name := by simpa using hk
    exact mem_compactFields.1 (mem_reverse.1 (mem_of_find?_eq_some hfind))
  · intro hv
    have hmem := mem_reverse.2 ((mem_compactFields (f := (name, v))).2 hv)
    obtain ⟨f, hfind⟩ := isSome_iff_exists.1
      (find?_isSome (p := fun f : String × Json => f.1 == name).2 ⟨(name, v), hmem, beq_self_eq_true name⟩)
    have hf := mem_compactFields.1 (mem_reverse.1 (mem_of_find?_eq_some hfind))
    have hname : f.1 = name := by simpa using find?_some hfind
    have hsame := inj_on_of_nodup_map hfs hf hv hname
    exact ⟨f, hfind, some.inj (Prod.mk.inj hsame).2⟩

lemma object_eq_compactFields (fs : List (String × Json)) :
    Json.object fs = compactFields (fs.map fun (k, v) => (k, some v)) := by
  rw [compactFields, filterMap_map]
  exact congrArg Json.object (filterMap_some ▸ rfl)

/-! ### Plain values -/

/-- Whether a value can be read back from its text, and no object in it repeats a name. -/
structure IsPlain (j : Json) : Prop where
  clean : j.IsClean
  unrepeated : j.isRepeating = false

@[simp] lemma isPlain_null : IsPlain .null := ⟨trivial, rfl⟩

@[simp] lemma isPlain_bool (b : Bool) : IsPlain (.bool b) := ⟨trivial, rfl⟩

@[simp] lemma isPlain_int (n : Int) : IsPlain (.int n) := ⟨⟨n, rfl⟩, rfl⟩

@[simp] lemma isPlain_string_iff : IsPlain (.string s) ↔ Text.IsValid s := ⟨IsPlain.clean, fun h => ⟨h, rfl⟩⟩

@[simp] lemma isPlain_array_iff : IsPlain (.array xs) ↔ ∀ x ∈ xs, x.IsPlain where
  mp h x hx := ⟨areClean_iff.1 h.clean x hx, anyRepeating_eq_false_iff.1 h.unrepeated x hx⟩
  mpr h := ⟨areClean_iff.2 fun x hx => (h x hx).clean, anyRepeating_eq_false_iff.2 fun x hx => (h x hx).unrepeated⟩

@[simp] def IsPlainField (v : Option Json) : Prop := ∀ j, v = some j → j.IsPlain

/-- A name of a field is made of small letters and underscores. -/
def IsFieldName (k : String) : Prop := ∀ c ∈ k.toList, (c.isLower || c == '_') = true

instance (k : String) : Decidable (IsFieldName k) :=
  List.decidableBAll (fun c : Char => (c.isLower || c == '_') = true) k.toList

lemma IsFieldName.toNat_mem (h : IsFieldName k) {c : Char} (hc : c ∈ k.toList) : 95 ≤ c.toNat ∧ c.toNat ≤ 122 := by
  rcases (Bool.or_eq_true _ _).mp (h c hc) with hlower | hunderscore
  · obtain ⟨hge, hle⟩ := Bool.and_eq_true_iff.1 hlower
    have hge : 97 ≤ c.toNat := UInt32.le_iff_toNat_le.1 (of_decide_eq_true hge)
    have hle : c.toNat ≤ 122 := UInt32.le_iff_toNat_le.1 (of_decide_eq_true hle)
    omega
  · rw [beq_iff_eq.1 hunderscore]
    decide

lemma IsFieldName.isAscii (h : IsFieldName k) : Text.IsAscii k :=
  fun _ hc => Nat.lt_of_le_of_lt (h.toNat_mem hc).2 (by decide)

lemma IsFieldName.foldName_eq (h : IsFieldName k) : foldName k = k := by
  refine String.toList_inj.1 ?_
  rw [foldName, String.toList_map]
  refine (map_congr_left fun c hc => ?_).trans (map_id _)
  obtain ⟨hge, hle⟩ := h.toNat_mem hc
  have hs : c.toNat ≠ 0x17f := by omega
  have hk : c.toNat ≠ 0x212a := by omega
  have hupper : ¬ (c.val ≥ 'A'.val ∧ c.val ≤ 'Z'.val) := fun hAZ => by
    have hZ : c.toNat ≤ 90 := UInt32.le_iff_toNat_le.1 hAZ.2
    omega
  have hlower : c.toLower = c := dif_neg hupper
  rw [if_neg (by simpa using hs), if_neg (by simpa using hk), hlower, id]

structure AreFieldNames (names : List String) : Prop where
  nodup : names.Nodup
  isFieldName : ∀ k ∈ names, IsFieldName k

variable {names : List String}

lemma AreFieldNames.map_foldName (h : AreFieldNames names) : names.map foldName = names :=
  map_congr_left (fun k hk => (h.isFieldName k hk).foldName_eq) |>.trans (map_id names)

lemma isPlain_compactFields (hnames : AreFieldNames names) (hfs : fs.map Prod.fst = names)
    (h : ∀ f ∈ fs, IsPlainField f.2) : (compactFields fs).IsPlain where
  clean := haveClean_iff.2 fun f hf => by
    have hmem := mem_compactFields.1 hf
    have hname : IsFieldName f.1 := hnames.isFieldName f.1 (hfs ▸ List.mem_map_of_mem hmem)
    exact ⟨hname.isAscii.isValid, (h _ hmem f.2 rfl).clean⟩
  unrepeated := by
    rw [compactFields, isRepeating, Bool.or_eq_false_iff]
    constructor
    · -- the names that are present are some of the names of the record, in their order
      have hsub : List.Sublist ((fs.filterMap fun (k, v) => v.map (k, ·)).map fun f => foldName f.1)
          names := by
        rw [← hnames.map_foldName, ← hfs, List.map_map]
        clear h hfs
        induction fs with
        | nil => exact List.Sublist.refl []
        | cons f fs ih =>
          obtain ⟨k, _ | v⟩ := f
          · exact ih.cons (foldName k)
          · exact ih.cons_cons (foldName k)
      exact bne_eq_false_iff_eq.2 (congrArg List.length (Pack.eraseDups_of_nodup (hsub.nodup hnames.nodup)))
    · exact anyFieldRepeating_eq_false_iff.2 fun f hf => (h _ (mem_compactFields.1 hf) f.2 rfl).unrepeated

lemma nesting_compactFields_le (h : ∀ f ∈ fs, ∀ v, f.2 = some v → v.nesting ≤ n) :
    (compactFields fs).nesting ≤ n + 1 :=
  Nat.succ_le_succ (nestingOfFields_le_iff.2 fun f hf => h _ (mem_compactFields.1 hf) f.2 rfl)

lemma nesting_array_map_le {f : α → Json} {xs : List α} (h : ∀ x ∈ xs, (f x).nesting ≤ n) :
    (Json.array (xs.map f)).nesting ≤ n + 1 :=
  Nat.succ_le_succ (nestingOfItems_le_iff.2 (forall_mem_map.2 h))

/-! ### Reading a record back -/

def putField {α : Type} (set : α → String → Json → Option α) (a : α) : String × Option Json → Option α
  | (_, none) => some a
  | (k, some v) => set a k v

lemma resolveName?_of_mem (h : k ∈ known) : resolveName? known k = some k :=
  if_pos (contains_iff_mem.2 h)

lemma mem_of_resolveName? {name : String} (h : resolveName? known k = some name) : name ∈ known := by
  rw [resolveName?] at h
  split at h
  · next hk => exact some.inj h ▸ contains_iff_mem.1 hk
  · exact mem_of_find?_eq_some h

variable {set : α → String → Json → Option α}

lemma decodeFields_compactFields {cur : α} {r : Option α}
    (hfs : fs.map Prod.fst = known) (h : fs.foldlM (putField set) cur = r) :
    decodeFields known set cur (compactFields fs) = r := by
  have hmem : ∀ f ∈ fs, f.1 ∈ known := fun f hf => hfs ▸ mem_map_of_mem hf
  clear hfs
  rw [← h, compactFields, decodeFields]
  clear h
  induction fs generalizing cur with
  | nil => rfl
  | cons f fs ih =>
    have hrest : ∀ f ∈ fs, f.1 ∈ known := fun g hg => hmem g (mem_cons_of_mem f hg)
    obtain ⟨k, _ | v⟩ := f
    · exact ih hrest
    · have hk : resolveName? known k = some k := resolveName?_of_mem (hmem (k, some v) mem_cons_self)
      simp only [filterMap_cons, map_some, foldlM_cons, hk, putField]
      exact congrArg (Option.bind _) (funext fun _ => ih hrest)

/-- What reading back a field gives: the content, which a field that is left out stands for. -/
structure ReadsAs {γ : Type} (dec : Json → Option γ) (absent : γ) (v : Option Json) (y : γ) : Prop where
  of_some : ∀ j, v = some j → dec j = some y
  of_none : v = none → y = absent

/-- One step of reading a record back. Its last two hypotheses hold by computation for most
fields. -/
lemma ReadsAs.put {γ : Type} {a : α} {r : Option α} {dec : Json → Option γ}
    {absent y : γ} {v : Option Json} {f : γ → α} (h : ReadsAs dec absent v y)
    (hrest : fs.foldlM (putField set) (f y) = r) (hset : ∀ j, set a k j = (dec j).map f := by exact fun _ => rfl)
    (habsent : f absent = a := by rfl) :
    ((k, v) :: fs).foldlM (putField set) a = r := by
  have hput : putField set a (k, v) = some (f y) := by
    cases v with
    | none => rw [putField, h.of_none rfl, habsent]
    | some j => rw [putField, hset, h.of_some j rfl, map_some]
  rw [foldlM_cons, hput, ← hrest]
  rfl

/-! ### Kinds of fields -/

section

variable {γ : Type} {dec : Json → Option γ} {absent y : γ} {j : Json}

lemma readsAs_some (h : dec j = some y) : ReadsAs dec absent (some j) y where
  of_some _ hj := some.inj hj ▸ h
  of_none := nofun

lemma readsAs_ite {c : Bool} (h : dec j = some y) (hc : c → y = absent) :
    ReadsAs dec absent (if c then none else some j) y := by
  cases c with
  | false => exact readsAs_some h
  | true => exact ⟨nofun, fun _ => hc rfl⟩

end

lemma readsAs_text (s : String) : ReadsAs (decodeText "") "" (some (.string s)) s := readsAs_some rfl

lemma readsAs_text? (s : String) : ReadsAs (decodeText "") "" (text? s) s :=
  readsAs_ite rfl String.isEmpty_iff.1

lemma readsAs_true? (b : Bool) : ReadsAs (decodeBool false) false (true? b) b := by
  cases b with
  | false => exact ⟨nofun, fun _ => rfl⟩
  | true => exact readsAs_some rfl

lemma fitsInt64_iff {n : Int} : fitsInt64 n ↔ Pack.IsLong n := by
  rw [fitsInt64, Word.fitsSigned, Bool.and_eq_true, decide_eq_true_eq, decide_eq_true_eq]
  rfl

lemma decodeInt_int {n : Int} (cur : Int) (h : Pack.IsLong n) : decodeInt cur (.int n) = some n := by
  show (Json.int n).int?.filter fitsInt64 = some n
  rw [int?_int, filter_some, if_pos (fitsInt64_iff.2 h)]

lemma readsAs_nonzero? {n : Int} (h : Pack.IsLong n) : ReadsAs (decodeInt 0) 0 (nonzero? n) n :=
  readsAs_ite (decodeInt_int 0 h) eq_of_beq

lemma decodeList_array_map {γ : Type} {item : Json → Option γ} {f : β → γ}
    (h : ∀ y ∈ ys, item (toJson y) = some (f y)) : decodeList item (.array (ys.map toJson)) = some (ys.map f) := by
  rw [decodeList, Pack.mapM_eq_some_iff, List.map_map, List.map_map]
  exact map_congr_left h

lemma decodeList_map {item : Json → Option β} (h : ∀ y ∈ ys, item (toJson y) = some y) :
    decodeList item (.array (ys.map toJson)) = some ys :=
  (decodeList_array_map h).trans (congrArg some (map_id ys))

lemma decodeOptional_compactFields {item : Json → Option β} {y : β} (h : item (compactFields fs) = some y) :
    decodeOptional item (compactFields fs) = some (some y) :=
  congrArg (Option.map some) h

lemma decodeList_strings (ss : List String) : decodeList (decodeText "") (.array (ss.map .string)) = some ss :=
  decodeList_map fun _ _ => rfl

lemma readsAs_nonempty? {dec : Json → Option (List β)} (h : dec (.array (ys.map toJson)) = some ys) :
    ReadsAs dec [] (nonempty? (ys.map toJson)) ys :=
  readsAs_ite h fun hnil => map_eq_nil_iff.1 (isEmpty_iff.1 hnil)

lemma readsAs_option {dec : Json → Option (Option β)} {x : Option β}
    (h : ∀ y, x = some y → dec (toJson y) = some (some y)) : ReadsAs dec none (x.map toJson) x where
  of_some j hj := by
    obtain ⟨y, rfl, rfl⟩ := map_eq_some_iff.1 hj
    exact h y rfl
  of_none hj := map_eq_none_iff.1 hj

/-! ### Values that are written with stray bytes

A value is written in the same way as the value whose texts are repaired (`pretty_repaired`,
`compress_repaired`), and that is what is read back. -/

mutual

def repaired : Json → Json
  | .null => .null
  | .bool b => .bool b
  | .number literal => .number literal
  | .string s => .string (Text.repaired s)
  | .array xs => .array (repairedItems xs)
  | .object fs => .object (repairedFields fs)

def repairedItems : List Json → List Json
  | [] => []
  | x :: xs => x.repaired :: repairedItems xs

def repairedFields : List (String × Json) → List (String × Json)
  | [] => []
  | (k, v) :: fs => (Text.repaired k, v.repaired) :: repairedFields fs

end

lemma repairedItems_eq_map (xs : List Json) : repairedItems xs = xs.map repaired := by
  induction xs with
  | nil => rfl
  | cons x xs ih => rw [repairedItems, ih, map_cons]

lemma repairedFields_eq_map (fs : List (String × Json)) :
    repairedFields fs = fs.map fun f => (Text.repaired f.1, f.2.repaired) := by
  induction fs with
  | nil => rfl
  | cons f fs ih => rw [repairedFields, ih, map_cons]

lemma repaired_array_map {α : Type} (toJson : α → Json) (xs : List α) :
    (Json.array (xs.map toJson)).repaired = .array (xs.map fun x => (toJson x).repaired) := by
  rw [repaired, repairedItems_eq_map, List.map_map]
  rfl

/-! ### Writing -/

lemma quotedString_repaired (s : String) : quotedString (Text.repaired s) = quotedString s := by
  rw [quotedString, Text.shown_repaired, quotedString]

mutual

lemma compress_repaired : ∀ j : Json, j.repaired.compress = j.compress
  | .null => rfl
  | .bool _ => rfl
  | .number _ => rfl
  | .string s => quotedString_repaired s
  | .array xs => by rw [repaired, compress, compressItems_repaired xs, compress]
  | .object fs => by rw [repaired, compress, compressFields_repaired fs, compress]

lemma compressItems_repaired : ∀ xs : List Json, compressItems (repairedItems xs) = compressItems xs
  | [] => rfl
  | x :: xs => by
    rw [repairedItems, compressItems, compress_repaired x, compressItems_repaired xs, compressItems]

lemma compressFields_repaired : ∀ fs : List (String × Json), compressFields (repairedFields fs) = compressFields fs
  | [] => rfl
  | (k, v) :: fs => by
    rw [repairedFields, compressFields, quotedString_repaired, compress_repaired v, compressFields_repaired fs,
      compressFields]

end

mutual

lemma pretty_repaired (depth : Nat) : ∀ j : Json, j.repaired.pretty depth = j.pretty depth
  | .null => rfl
  | .bool _ => rfl
  | .number _ => rfl
  | .string s => by rw [repaired, pretty, quotedString_repaired, pretty]
  | .array [] => rfl
  | .object [] => rfl
  | .array (x :: xs) => by
    have hitems := prettyItems_repaired (depth + 1) (x :: xs)
    rw [repairedItems] at hitems
    rw [repaired, repairedItems, pretty, hitems, pretty]
  | .object (f :: fs) => by
    have hfields := prettyFields_repaired (depth + 1) (f :: fs)
    rw [repairedFields] at hfields
    rw [repaired, repairedFields, pretty, hfields, pretty]

lemma prettyItems_repaired (depth : Nat) : ∀ xs : List Json,
    prettyItems depth (repairedItems xs) = prettyItems depth xs
  | [] => rfl
  | x :: xs => by
    rw [repairedItems, prettyItems, pretty_repaired depth x, prettyItems_repaired depth xs, prettyItems]

lemma prettyFields_repaired (depth : Nat) : ∀ fs : List (String × Json),
    prettyFields depth (repairedFields fs) = prettyFields depth fs
  | [] => rfl
  | (k, v) :: fs => by
    rw [repairedFields, prettyFields, quotedString_repaired, pretty_repaired depth v, prettyFields_repaired depth fs,
      prettyFields]

end

/-! ### Records -/

lemma repaired_compactFields (hnames : AreFieldNames names)
    {fs : List (String × Option Json)} (hfs : fs.map Prod.fst = names) :
    (compactFields fs).repaired = compactFields (fs.map fun f => (f.1, f.2.map repaired)) := by
  have hmem : ∀ f ∈ fs, IsFieldName f.1 := fun f hf => hnames.isFieldName f.1 (hfs ▸ mem_map_of_mem hf)
  clear hfs
  rw [compactFields, repaired, repairedFields_eq_map, compactFields]
  congr 1
  induction fs with
  | nil => rfl
  | cons f fs ih =>
    have hrest := ih fun g hg => hmem g (mem_cons_of_mem f hg)
    have hname : Text.repaired f.1 = f.1 := Text.repaired_eq_self_iff.2 (hmem f mem_cons_self).isAscii.isValid
    obtain ⟨k, _ | v⟩ := f
    · exact hrest
    · simp only [filterMap_cons, map_cons, Option.map_some] at hrest hname ⊢
      rw [hrest, hname]

@[simp]
lemma repaired_text? (s : String) : (text? s).map repaired = text? (Text.repaired s) := by
  rw [text?, text?]
  by_cases h : s = ""
  · simp [h, Text.repaired_eq_empty_iff.2]
  · simp [h, repaired]

lemma repaired_string (s : String) : (Json.string s).repaired = .string (Text.repaired s) := rfl

@[simp]
lemma repaired_nonzero? (n : Int) : (nonzero? n).map repaired = nonzero? n := by
  rw [nonzero?]
  split <;> rfl

@[simp]
lemma repaired_true? (b : Bool) : (true? b).map repaired = true? b := by
  cases b <;> rfl

@[simp]
lemma repaired_nonempty? (xs : List Json) : (nonempty? xs).map repaired = nonempty? (xs.map repaired) := by
  cases xs with
  | nil => rfl
  | cons x xs => simp [nonempty?, repaired, repairedItems_eq_map]

mutual

lemma nesting_repaired : ∀ j : Json, j.repaired.nesting = j.nesting
  | .null => rfl
  | .bool _ => rfl
  | .number _ => rfl
  | .string _ => rfl
  | .array xs => by rw [repaired, nesting, nestingOfItems_repaired xs, nesting]
  | .object fs => by rw [repaired, nesting, nestingOfFields_repaired fs, nesting]

lemma nestingOfItems_repaired : ∀ xs : List Json, nestingOfItems (repairedItems xs) = nestingOfItems xs
  | [] => rfl
  | x :: xs => by rw [repairedItems, nestingOfItems, nesting_repaired x, nestingOfItems_repaired xs, nestingOfItems]

lemma nestingOfFields_repaired : ∀ fs : List (String × Json), nestingOfFields (repairedFields fs) = nestingOfFields fs
  | [] => rfl
  | (k, v) :: fs => by
    rw [repairedFields, nestingOfFields, nesting_repaired v, nestingOfFields_repaired fs, nestingOfFields]

end

/-! ### Clean values

With its texts repaired, a value is clean if its numbers are whole. -/

@[simp]
lemma isClean_repaired_null : Json.null.repaired.IsClean := trivial

@[simp]
lemma isClean_repaired_bool (b : Bool) : (Json.bool b).repaired.IsClean := trivial

@[simp]
lemma isClean_repaired_string (s : String) : (Json.string s).repaired.IsClean := Text.isValid_repaired s

@[simp]
lemma isClean_repaired_int (n : Int) : (Json.int n).repaired.IsClean := ⟨n, rfl⟩

lemma isClean_repaired_array {xs : List Json} : (Json.array xs).repaired.IsClean ↔ ∀ x ∈ xs, x.repaired.IsClean := by
  rw [repaired, repairedItems_eq_map, IsClean, areClean_iff, List.forall_mem_map]

@[simp]
lemma isClean_repaired_array_map {α : Type} {toJson : α → Json} {xs : List α} :
    (Json.array (xs.map toJson)).repaired.IsClean ↔ ∀ x ∈ xs, (toJson x).repaired.IsClean := by
  rw [isClean_repaired_array, List.forall_mem_map]

lemma isClean_repaired_compactFields {fs : List (String × Option Json)}
    (h : ∀ f ∈ fs, ∀ v, f.2 = some v → v.repaired.IsClean) : (compactFields fs).repaired.IsClean := by
  rw [compactFields, repaired, repairedFields_eq_map, IsClean, haveClean_iff, List.forall_mem_map]
  exact fun f hf => ⟨Text.isValid_repaired _, h _ (mem_compactFields.1 hf) f.2 rfl⟩

/-! ### Reading -/

lemma parse?_compress_of_repaired {j : Json} (h : j.repaired.IsClean) (hdepth : j.repaired.nesting ≤ maxDepth) :
    parse? j.compress = some j.repaired := by
  rw [← compress_repaired]
  exact parse?_compress h hdepth

lemma parse?_pretty_of_repaired {j : Json} (h : j.repaired.IsClean) (hdepth : j.repaired.nesting ≤ maxDepth) :
    parse? (j.pretty 0 ++ "\n") = some j.repaired := by
  rw [← pretty_repaired]
  exact parse?_pretty h hdepth

end BytecodeAudit.Json
