import BytecodeAudit.Proofs.Json.Records

/-!
# Values that were read

Every value that the reader returns has valid texts and containers that do not nest deeper than the
reader follows them (`isRead_of_parse?`).

A record is read from an object field by field (`decodeFields_induction`), names in any spelling, a
later field of a name over an earlier one.  In a value that is `IsFaithful` neither matters.
-/

namespace BytecodeAudit.Json

open List Option

variable {α : Type} {fs : List (String × Json)} {xs : List Json} {j v : Json} {names : List String} {k : String}

/-! ### Legible values -/

mutual

/-- Whether every text in a value is valid. -/
def IsLegible : Json → Prop
  | .string s => Text.IsValid s
  | .array xs => AreLegible xs
  | .object fs => HaveLegible fs
  | _ => True

def AreLegible : List Json → Prop
  | [] => True
  | x :: xs => x.IsLegible ∧ AreLegible xs

def HaveLegible : List (String × Json) → Prop
  | [] => True
  | (_, v) :: fs => v.IsLegible ∧ HaveLegible fs

end

lemma areLegible_iff : AreLegible xs ↔ ∀ x ∈ xs, x.IsLegible :=
  Pack.iff_forall_mem trivial fun _ _ => .rfl

lemma haveLegible_iff : HaveLegible fs ↔ ∀ f ∈ fs, f.2.IsLegible :=
  Pack.iff_forall_mem trivial fun _ _ => .rfl

lemma isValid_of_stringBody {fuel : Nat} {acc cs rest : List Char} {s : String}
    (h : stringBody fuel acc cs = some (s, rest)) : Text.IsValid s := by
  fun_induction stringBody fuel acc cs with
  | case1 | case2 | case5 | case7 | case8 => cases h
  | case3 => exact (Prod.mk.inj (some.inj h)).1 ▸ Text.isValid_ofChars _
  | case4 _ _ _ _ _ _ _ _ _ ih | case6 _ _ _ _ _ _ _ ih | case9 _ _ _ _ _ _ _ _ ih => exact ih h

structure IsRead (depth : Nat) (j : Json) : Prop where
  legible : j.IsLegible
  nesting_le : j.nesting ≤ depth

lemma isRead_array {depth : Nat} (hdepth : depth ≠ 0) (h : ∀ x ∈ xs, x.IsRead (depth - 1)) :
    IsRead depth (.array xs) where
  legible := areLegible_iff.2 fun x hx => (h x hx).legible
  nesting_le := by
    have hle := nestingOfItems_le_iff.2 fun x hx => (h x hx).nesting_le
    rw [nesting]
    omega

lemma isRead_object {depth : Nat} (hdepth : depth ≠ 0) (h : ∀ f ∈ fs, f.2.IsRead (depth - 1)) :
    IsRead depth (.object fs) where
  legible := haveLegible_iff.2 fun f hf => (h f hf).legible
  nesting_le := by
    have hle := nestingOfFields_le_iff.2 fun f hf => (h f hf).nesting_le
    rw [nesting]
    omega

/-- Every value, item and field is read with the depth that is left for it, by induction on the fuel
of the three readers together. -/
lemma isRead_of_read (fuel : Nat) : (∀ depth cs j rest, value fuel depth cs = some (j, rest) → j.IsRead depth) ∧
    (∀ depth acc cs xs rest, (∀ x ∈ acc, IsRead depth x) → itemList fuel depth acc cs = some (xs, rest) →
      ∀ x ∈ xs, x.IsRead depth) ∧
    ∀ depth acc cs fs rest, (∀ f ∈ acc, IsRead depth f.2) → fieldList fuel depth acc cs = some (fs, rest) →
      ∀ f ∈ fs, f.2.IsRead depth := by
  induction fuel with
  | zero => exact ⟨nofun, nofun, nofun⟩
  | succ n ih =>
    obtain ⟨hvalue, hitems, hfields⟩ := ih
    refine ⟨fun depth cs j rest h => ?_, fun depth acc cs xs rest hacc h => ?_, fun depth acc cs fs rest hacc h => ?_⟩
    · rw [value] at h
      split at h
      · cases h; exact ⟨trivial, Nat.zero_le _⟩
      · cases h; exact ⟨trivial, Nat.zero_le _⟩
      · cases h; exact ⟨trivial, Nat.zero_le _⟩
      · obtain ⟨⟨s, r⟩, hs, h⟩ := map_eq_some_iff.1 h
        cases h
        exact ⟨isValid_of_stringBody hs, Nat.zero_le _⟩
      · split at h
        · cases h
        · next hdepth =>
          split at h
          · cases h; exact isRead_array hdepth (forall_mem_nil _)
          · obtain ⟨⟨xs, r⟩, hxs, h⟩ := map_eq_some_iff.1 h
            cases h
            exact isRead_array hdepth (hitems _ _ _ _ _ (forall_mem_nil _) hxs)
      · split at h
        · cases h
        · next hdepth =>
          split at h
          · cases h; exact isRead_object hdepth (forall_mem_nil _)
          · obtain ⟨⟨fs, r⟩, hfs, h⟩ := map_eq_some_iff.1 h
            cases h
            exact isRead_object hdepth (hfields _ _ _ _ _ (forall_mem_nil _) hfs)
      · obtain ⟨⟨s, r⟩, -, h⟩ := map_eq_some_iff.1 h
        cases h
        exact ⟨trivial, Nat.zero_le _⟩
    · rw [itemList] at h
      split at h
      · cases h
      · next x rest' hx =>
        have hcons : ∀ y ∈ x :: acc, IsRead depth y := forall_mem_cons.2 ⟨hvalue _ _ _ _ hx, hacc⟩
        split at h
        · exact hitems _ _ _ _ _ hcons h
        · cases h
          exact fun y hy => hcons y (mem_reverse.1 hy)
        · cases h
    · rw [fieldList] at h
      split at h
      · split at h
        · cases h
        · next k rest' _ =>
          split at h
          · split at h
            · cases h
            · next v rest'' hv =>
              have hcons : ∀ f ∈ (k, v) :: acc, IsRead depth f.2 := forall_mem_cons.2 ⟨hvalue _ _ _ _ hv, hacc⟩
              split at h
              · exact hfields _ _ _ _ _ hcons h
              · cases h
                exact fun f hf => hcons f (mem_reverse.1 hf)
              · cases h
          · cases h
      · cases h

lemma isRead_of_parse? {text : String} (h : parse? text = some j) : j.IsRead maxDepth := by
  rw [parse?] at h
  split at h
  · next v rest hv =>
    split at h
    · cases h
      exact (isRead_of_read _).1 _ _ _ _ hv
    · cases h
  · cases h

/-! ### Faithful values -/

mutual

/-- Whether an object holds one of some names in another spelling, at any depth. -/
def hasVariant (names : List String) : Json → Bool
  | .array xs => anyVariant names xs
  | .object fs => anyFieldVariant names fs
  | _ => false

def anyVariant (names : List String) : List Json → Bool
  | [] => false
  | x :: xs => x.hasVariant names || anyVariant names xs

def anyFieldVariant (names : List String) : List (String × Json) → Bool
  | [] => false
  | (k, v) :: fs => (resolveName? names k).any (· != k) || v.hasVariant names || anyFieldVariant names fs

end

lemma anyVariant_eq_false_iff : anyVariant names xs = false ↔ ∀ x ∈ xs, x.hasVariant names = false :=
  Pack.iff_forall_mem (F := (anyVariant names · = false)) rfl fun _ _ => Bool.or_eq_false_iff

lemma anyFieldVariant_eq_false_iff : anyFieldVariant names fs = false ↔
      ∀ f ∈ fs, (∀ n, resolveName? names f.1 = some n → n = f.1) ∧ f.2.hasVariant names = false := by
  induction fs with
  | nil => simp [anyFieldVariant]
  | cons f fs ih => simp [anyFieldVariant, ih, and_assoc, Option.any_eq_false]

lemma length_eraseDups_le (xs : List String) : xs.eraseDups.length ≤ xs.length := by
  match xs with
  | [] => exact Nat.le_refl 0
  | x :: xs =>
    have hrest := length_eraseDups_le (xs.filter fun y => !y == x)
    have hfilter := length_filter_le (fun y => !y == x) xs
    rw [eraseDups_cons, length_cons, length_cons]
    omega
termination_by xs.length
decreasing_by exact Nat.lt_succ_of_le (length_filter_le ..)

lemma nodup_of_length_eraseDups {xs : List String} (h : xs.eraseDups.length = xs.length) : xs.Nodup := by
  induction xs with
  | nil => exact nodup_nil
  | cons x xs ih =>
    have hrest := length_eraseDups_le (xs.filter fun y => !y == x)
    have hfilter := length_filter_le (fun y => !y == x) xs
    rw [eraseDups_cons, length_cons, length_cons] at h
    have hkeep := length_filter_eq_length_iff.1 (show (xs.filter fun y => !y == x).length = xs.length by omega)
    rw [filter_eq_self.2 hkeep] at h
    refine nodup_cons.2 ⟨fun hx => ?_, ih (by omega)⟩
    simpa using hkeep x hx

lemma nodup_of_isRepeating (h : (Json.object fs).isRepeating = false) : (fs.map Prod.fst).Nodup := by
  rw [isRepeating, Bool.or_eq_false_iff, bne_eq_false_iff_eq] at h
  have hfolded := nodup_of_length_eraseDups h.1
  exact pairwise_map.2 ((pairwise_map.1 hfolded).imp fun hne heq => hne (congrArg foldName heq))

lemma field?_eq_of_mem (h : (Json.object fs).isRepeating = false) (hv : (k, v) ∈ fs) :
    (Json.object fs).field? k = some v := by
  have hsome : (fs.reverse.find? (·.1 == k)).isSome := find?_isSome.2 ⟨(k, v), mem_reverse.2 hv, beq_self_eq_true k⟩
  obtain ⟨f, hf⟩ := isSome_iff_exists.1 hsome
  have hk : f.1 = k := by simpa using find?_some hf
  have hmem := mem_reverse.1 (mem_of_find?_eq_some hf)
  obtain rfl := inj_on_of_nodup_map (nodup_of_isRepeating h) hmem hv hk
  rw [field?, hf]
  rfl

/-- Whether a value says the same to every reader: its texts are valid, and no object in it holds a
name in two spellings, or twice, nor one of some names in another spelling. -/
structure IsFaithful (names : List String) (j : Json) : Prop where
  legible : j.IsLegible
  unrepeated : j.isRepeating = false
  exact : j.hasVariant names = false

namespace IsFaithful

variable {names : List String}

lemma of_mem_array {xs : List Json} (h : IsFaithful names (.array xs)) {x : Json} (hx : x ∈ xs) :
    x.IsFaithful names :=
  ⟨areLegible_iff.1 h.legible x hx, anyRepeating_eq_false_iff.1 h.unrepeated x hx,
    anyVariant_eq_false_iff.1 h.exact x hx⟩

variable {fs : List (String × Json)}

lemma of_mem_object (h : IsFaithful names (.object fs)) {k : String} {v : Json} (hv : (k, v) ∈ fs) :
    v.IsFaithful names := by
  have hunrepeated := h.unrepeated
  rw [isRepeating, Bool.or_eq_false_iff] at hunrepeated
  exact ⟨haveLegible_iff.1 h.legible _ hv, anyFieldRepeating_eq_false_iff.1 hunrepeated.2 _ hv,
    (anyFieldVariant_eq_false_iff.1 h.exact _ hv).2⟩

lemma eq_of_resolveName? (hnames : ∀ k ∈ names, IsFieldName k) {known : List String} (hknown : ∀ k ∈ known, k ∈ names)
    (h : IsFaithful names (.object fs)) {k n : String} {v : Json} (hv : (k, v) ∈ fs)
    (hn : resolveName? known k = some n) : n = k := by
  by_contra hne
  have hmem := mem_of_resolveName? hn
  have hfold : foldName n = foldName k := by
    rw [resolveName?] at hn
    split at hn
    · exact absurd (some.inj hn).symm hne
    · simpa using find?_some hn
  -- the name is also looked for among all names, where it is found in one spelling only
  have hexact := (anyFieldVariant_eq_false_iff.1 h.exact _ hv).1
  have hfound : ∃ m, resolveName? names k = some m := by
    rw [resolveName?]
    split
    · exact ⟨k, rfl⟩
    · refine isSome_iff_exists.1 (find?_isSome.2 ⟨n, hknown n hmem, by simpa using hfold⟩)
  obtain ⟨m, hm⟩ := hfound
  obtain rfl := hexact m hm
  have hnn := (hnames n (hknown n hmem)).foldName_eq
  have hmm := (hnames m (mem_of_resolveName? hm)).foldName_eq
  exact hne (hnn.symm.trans (hfold.trans hmm))

end IsFaithful

/-! ### Reading records -/

section

variable {α : Type} {known : List String} {set : α → String → Json → Option α} {cur x : α}

def readField (known : List String) (set : α → String → Json → Option α) (a : α) (f : String × Json) : Option α :=
  match resolveName? known f.1 with
  | some name => set a name f.2
  | none => some a

lemma readField_eq {n : String} (h : resolveName? known k = some n) (a : α) (v : Json) :
    readField known set a (k, v) = set a n v := by
  rw [readField, h]

lemma decodeFields_object (known : List String) (set : α → String → Json → Option α) (cur : α)
    (fs : List (String × Json)) : decodeFields known set cur (.object fs) = fs.foldlM (readField known set) cur := rfl

lemma decodeFields_invariant {P : α → Prop} (h : decodeFields known set cur j = some x) (hcur : P cur)
    (hset : ∀ a k v b, P a → k ∈ known → v ∈ j.fields.map Prod.snd → set a k v = some b → P b) : P x := by
  cases j with
  | null => exact some.inj h ▸ hcur
  | object fs =>
    rw [decodeFields_object] at h
    rw [fields] at hset
    induction fs generalizing cur with
    | nil => exact some.inj h ▸ hcur
    | cons f fs ih =>
      rw [foldlM_cons, bind_eq_bind, bind_eq_some_iff] at h
      obtain ⟨a, ha, h⟩ := h
      have hstep : P a := by
        rw [readField] at ha
        split at ha
        · next n hn => exact hset _ n _ _ hcur (mem_of_resolveName? hn) mem_cons_self ha
        · exact some.inj ha ▸ hcur
      exact ih hstep h fun a k v b hP hk hv => hset a k v b hP hk (mem_cons_of_mem _ hv)
  | bool | number | string | array => cases h

/-- The fields of a record are read one after another. What holds of it may depend on the known
names that were seen. -/
lemma decodeFields_induction (hnames : ∀ k ∈ names, IsFieldName k) (hknown : ∀ k ∈ known, k ∈ names)
    {P : List String → α → Prop} (hj : IsFaithful names (.object fs))
    (h : decodeFields known set cur (.object fs) = some x) (hcur : P [] cur)
    (hset : ∀ seen a k v b, P seen a → k ∈ known → k ∉ seen → (k, v) ∈ fs → set a k v = some b → P (k :: seen) b) :
    P ((fs.map Prod.fst).filter (· ∈ known)).reverse x := by
  -- over the fields that are left, with those before them seen
  have hrest : ∀ (gs : List (String × Json)) seen a, (∀ f ∈ gs, f ∈ fs) → (gs.map Prod.fst).Nodup →
      (∀ f ∈ gs, f.1 ∉ seen) → gs.foldlM (readField known set) a = some x → P seen a →
      P (((gs.map Prod.fst).filter (· ∈ known)).reverse ++ seen) x := by
    intro gs
    induction gs with
    | nil => exact fun seen a _ _ _ h ha => some.inj h ▸ ha
    | cons f gs ih =>
      intro seen a hgs hnodup hseen h ha
      obtain ⟨k, v⟩ := f
      obtain ⟨hnew, hdistinct⟩ := nodup_cons.1 hnodup
      obtain ⟨hmem, hlater⟩ := forall_mem_cons.1 hgs
      obtain ⟨hfirst, hother⟩ := forall_mem_cons.1 hseen
      rw [foldlM_cons, bind_eq_bind, bind_eq_some_iff] at h
      obtain ⟨b, hb, h⟩ := h
      rw [readField] at hb
      split at hb
      · next n hn =>
        obtain rfl := hj.eq_of_resolveName? hnames hknown hmem hn
        have hk := mem_of_resolveName? hn
        have hleft : ∀ f ∈ gs, f.1 ∉ n :: seen := fun f hf hmem => by
          rcases mem_cons.1 hmem with rfl | hmem
          · exact hnew (mem_map.2 ⟨f, hf, rfl⟩)
          · exact hother f hf hmem
        simpa [hk] using ih (n :: seen) b hlater hdistinct hleft h (hset seen a n v b ha hk hfirst hmem hb)
      · next hn =>
        have hk : k ∉ known := fun hk => by
          rw [resolveName?_of_mem hk] at hn
          cases hn
        cases hb
        simpa [hk] using ih seen a hlater hdistinct hother h ha
  simpa using hrest fs [] cur (fun _ hf => hf) (nodup_of_isRepeating hj.unrepeated) (fun _ _ => not_mem_nil) h hcur

end

lemma exists_of_mem_decodeList {item : Json → Option α} {ys : List α} (h : decodeList item j = some ys) {y : α}
    (hy : y ∈ ys) : ∃ xs, j = .array xs ∧ ∃ x ∈ xs, item x = some y := by
  cases j with
  | null => cases h; cases hy
  | array xs =>
    exact ⟨xs, rfl, Pack.exists_of_mem_mapM h hy⟩
  | bool | number | string | object => cases h

lemma isValid_of_decodeText {cur s : String} (hj : j.IsLegible) (hcur : Text.IsValid cur)
    (h : decodeText cur j = some s) : Text.IsValid s := by
  cases j with
  | null => exact some.inj h ▸ hcur
  | string t => exact some.inj h ▸ hj
  | bool | number | array | object => cases h

lemma IsFaithful.isValid {cur s : String} (hj : j.IsFaithful names) (hcur : Text.IsValid cur)
    (h : decodeText cur j = some s) : Text.IsValid s := isValid_of_decodeText hj.legible hcur h

lemma IsLegible.of_mem_fields (hj : j.IsLegible) (hv : v ∈ j.fields.map Prod.snd) : v.IsLegible := by
  cases j with
  | object fs =>
    obtain ⟨f, hf, rfl⟩ := mem_map.1 hv
    exact haveLegible_iff.1 hj f hf
  | null | bool | number | string | array => cases hv

lemma isLong_of_decodeInt {cur n : Int} (hcur : Pack.IsLong cur) (h : decodeInt cur j = some n) : Pack.IsLong n := by
  rw [decodeInt.eq_def] at h
  split at h
  · exact some.inj h ▸ hcur
  · exact fitsInt64_iff.1 (filter_eq_some_iff.1 h).2

/-! ### What the values of a record that is read can be read as -/

variable {set : α → String → Json → Option α}

lemma exists_set_of_mem {P : α → Prop} {known : List String} {cur x : α}
    (h : decodeFields known set cur (.object fs) = some x) (hcur : P cur)
    (hset : ∀ a k v b, P a → set a k v = some b → P b) (hk : k ∈ known) (hv : (k, v) ∈ fs) :
    ∃ a b, P a ∧ set a k v = some b := by
  rw [decodeFields_object] at h
  induction fs generalizing cur with
  | nil => cases hv
  | cons f fs ih =>
    rw [foldlM_cons] at h
    obtain ⟨b, hb, hrest⟩ := bind_eq_some_iff.1 h
    rcases mem_cons.1 hv with rfl | hv
    · rw [readField_eq (resolveName?_of_mem hk)] at hb
      exact ⟨cur, b, hcur, hb⟩
    · refine ih hrest ?_ hv
      rw [readField] at hb
      split at hb
      · exact hset _ _ _ _ hcur hb
      · exact some.inj hb ▸ hcur

lemma exists_set_of_field {known : List String} {cur x : α}
    (h : decodeFields known set cur (.object fs) = some x) (hk : k ∈ known) (hv : (k, v) ∈ fs) :
    ∃ a b, set a k v = some b := by
  obtain ⟨a, b, -, hb⟩ := exists_set_of_mem (P := fun _ => True) h trivial (fun _ _ _ _ _ _ => trivial) hk hv
  exact ⟨a, b, hb⟩

lemma exists_of_mem_array {item : Json → Option α} {ys : List α} (h : xs.mapM item = some ys) {x : Json}
    (hx : x ∈ xs) : ∃ y, item x = some y := by
  obtain ⟨y, -, hy⟩ := mem_map.1 (Pack.mapM_eq_some_iff.1 h ▸ mem_map_of_mem hx)
  exact ⟨y, hy.symm⟩

lemma isLong_of_decodeInt_int {cur n m : Int} (h : decodeInt cur (.int n) = some m) : Pack.IsLong n := by
  have hfilter : (Json.int n).int?.filter fitsInt64 = some m := h
  rw [int?_int] at hfilter
  obtain ⟨hm, hfits⟩ := filter_eq_some_iff.1 hfilter
  exact some.inj hm ▸ fitsInt64_iff.1 hfits

end BytecodeAudit.Json
