import Mathlib.Data.List.Basic
import BytecodeAudit.Text.Basic

/-!
# Texts hold every byte sequence

Reading bytes as text loses nothing (`toBytes_ofBytes`). A character string stands for bytes
faithfully when it is one of the texts that reading produces, `IsText`.
-/

namespace BytecodeAudit.Text

open List Option

variable {b : UInt8} {rest bs : List UInt8} {c : Char} {s t : String} (char : Char → List Char) (stray : UInt8 → Char)

/-! ### One character -/

lemma charBytes_eq (c : Char) : charBytes c = String.utf8EncodeChar c := by
  rw [charBytes, String.toUTF8_eq_toByteArray, String.singleton_eq_ofList, String.toByteArray_ofList,
    utf8Encode_singleton, data_toByteArray]

lemma toNat_ofNat {n : Nat} (h : n.isValidChar) : (Char.ofNat n).toNat = n := by
  rw [Char.ofNat, dif_pos h]
  rfl

lemma utf8EncodeChar_ofNat {n : Nat} (h : n.isValidChar) : String.utf8EncodeChar (Char.ofNat n) =
      if n ≤ 0x7f then [UInt8.ofNat n]
      else if n ≤ 0x7ff then [UInt8.ofNat (n / 64 % 32 + 0xc0), UInt8.ofNat (n % 64 + 0x80)]
      else if n ≤ 0xffff then
        [UInt8.ofNat (n / 4096 % 16 + 0xe0), UInt8.ofNat (n / 64 % 64 + 0x80), UInt8.ofNat (n % 64 + 0x80)]
      else
        [UInt8.ofNat (n / 262144 % 8 + 0xf0), UInt8.ofNat (n / 4096 % 64 + 0x80),
          UInt8.ofNat (n / 64 % 64 + 0x80), UInt8.ofNat (n % 64 + 0x80)] := by
  have hn : (Char.ofNat n).val.toNat = n := toNat_ofNat h
  simp only [String.utf8EncodeChar, hn]

lemma continuation?_eq_some_iff {y : Nat} : continuation? b = some y ↔ b = UInt8.ofNat (y + 0x80) ∧ y < 64 := by
  simp only [continuation?, UInt8.le_iff_toNat_le, UInt8.lt_iff_toNat_lt, Bool.and_eq_true,
    decide_eq_true_eq, ite_none_right_eq_some, some.injEq, ← UInt8.toNat_inj,
    UInt8.toNat_ofNat', UInt8.reduceToNat]
  omega

lemma eq_append_of_firstChar? (h : firstChar? bs = some (c, rest)) : bs = String.utf8EncodeChar c ++ rest := by
  unfold firstChar? at h
  split at h
  · cases h
  rename_i a tail
  have ha := a.toNat_lt
  -- one case for each length of an encoding, and one for a byte that starts none
  simp only [UInt8.lt_iff_toNat_lt, UInt8.le_iff_toNat_le, Bool.and_eq_true, decide_eq_true_eq, UInt8.reduceToNat] at h
  split at h
  · obtain ⟨rfl, rfl⟩ : Char.ofNat a.toNat = c ∧ tail = rest := by simpa using h
    rw [utf8EncodeChar_ofNat (Or.inl (by omega)), if_pos (by omega), UInt8.ofNat_toNat]
    rfl
  split at h
  · split at h
    · rename_i b tail
      obtain ⟨y, hy, hc⟩ := map_eq_some_iff.1 h
      cases hc
      obtain ⟨rfl, hy⟩ := continuation?_eq_some_iff.1 hy
      rw [utf8EncodeChar_ofNat (Or.inl (by omega)), if_neg (by omega), if_pos (by omega)]
      simp only [cons_append, nil_append, List.cons.injEq, and_true, ← UInt8.toNat_inj, UInt8.toNat_ofNat']
      omega
    · cases h
  split at h
  · split at h
    · rename_i b d tail
      simp only [bind_eq_bind, bind_eq_some_iff, continuation?_eq_some_iff,
        ite_none_right_eq_some, some.injEq, Prod.mk.injEq] at h
      obtain ⟨y, ⟨rfl, hy⟩, z, ⟨rfl, hz⟩, ⟨hn, hv⟩, rfl, rfl⟩ := h
      rw [utf8EncodeChar_ofNat hv, if_neg (by omega), if_neg (by omega), if_pos (by omega)]
      simp only [cons_append, nil_append, List.cons.injEq, and_true, ← UInt8.toNat_inj, UInt8.toNat_ofNat']
      omega
    · cases h
  split at h
  · split at h
    · rename_i b d e tail
      simp only [bind_eq_bind, bind_eq_some_iff, continuation?_eq_some_iff,
        ite_none_right_eq_some, some.injEq, Prod.mk.injEq] at h
      obtain ⟨y, ⟨rfl, hy⟩, z, ⟨rfl, hz⟩, w, ⟨rfl, hw⟩, ⟨hn, hv⟩, rfl, rfl⟩ := h
      rw [utf8EncodeChar_ofNat hv, if_neg (by omega), if_neg (by omega), if_neg (by omega)]
      simp only [cons_append, nil_append, List.cons.injEq, and_true, ← UInt8.toNat_inj, UInt8.toNat_ofNat']
      omega
    · cases h
  · cases h

lemma continuation?_ofNat {y : Nat} (h : y < 64) : continuation? (UInt8.ofNat (y + 0x80)) = some y :=
  continuation?_eq_some_iff.2 ⟨rfl, h⟩

lemma firstChar?_append (c : Char) (rest : List UInt8) :
    firstChar? (String.utf8EncodeChar c ++ rest) = some (c, rest) := by
  obtain ⟨n, hv, rfl⟩ : ∃ n : Nat, n.isValidChar ∧ Char.ofNat n = c := ⟨c.toNat, c.valid, c.ofNat_toNat⟩
  have hn : n < 0x110000 := by rcases hv with h | h <;> omega
  rw [utf8EncodeChar_ofNat hv]
  split_ifs <;> simp only [cons_append, nil_append, firstChar?, UInt8.lt_iff_toNat_lt, UInt8.reduceToNat,
    UInt8.le_iff_toNat_le, Bool.and_eq_true, decide_eq_true_eq, UInt8.toNat_ofNat']
  · rw [if_pos (by omega), Nat.mod_eq_of_lt (by omega)]
  · rw [if_neg (by omega), if_pos (by omega), continuation?_ofNat (by omega), map_some]
    congr 3
    omega
  · rw [if_neg (by omega), if_neg (by omega), if_pos (by omega), continuation?_ofNat (by omega),
      continuation?_ofNat (by omega)]
    -- the number from its digits to base 64
    have hsum : (((n / 4096 % 16 + 0xe0) % 2 ^ 8 - 0xe0) * 64 + n / 64 % 64) * 64 + n % 64 = n := by omega
    simp only [bind_eq_bind, bind_some, hsum]
    rw [if_pos ⟨by omega, hv⟩]
  · rw [if_neg (by omega), if_neg (by omega), if_neg (by omega), if_pos (by omega),
      continuation?_ofNat (by omega), continuation?_ofNat (by omega), continuation?_ofNat (by omega)]
    have hsum : ((((n / 262144 % 8 + 0xf0) % 2 ^ 8 - 0xf0) * 64 + n / 4096 % 64) * 64 + n / 64 % 64) * 64
        + n % 64 = n := by omega
    simp only [bind_eq_bind, bind_some, hsum]
    rw [if_pos ⟨by omega, hv⟩]

lemma firstChar?_eq_some_iff : firstChar? bs = some (c, rest) ↔ bs = String.utf8EncodeChar c ++ rest :=
  ⟨eq_append_of_firstChar?, fun h => h ▸ firstChar?_append c rest⟩

lemma firstChar?_eq_none_iff : firstChar? bs = none ↔ ∀ c, ¬ String.utf8EncodeChar c <+: bs := by
  constructor
  · rintro h c ⟨rest, rfl⟩
    rw [firstChar?_append] at h
    cases h
  · intro h
    rcases hb : firstChar? bs with _ | ⟨c, rest⟩
    · rfl
    · exact absurd ⟨rest, (firstChar?_eq_some_iff.1 hb).symm⟩ (h c)

lemma length_utf8EncodeChar_pos (c : Char) : 0 < (String.utf8EncodeChar c).length :=
  String.length_utf8EncodeChar c ▸ c.utf8Size_pos

/-- Every byte sequence is built from the end by encodings and by bytes that start none. -/
lemma bytesInduction {motive : List UInt8 → Prop} (nil : motive [])
    (char : ∀ c rest, motive rest → motive (String.utf8EncodeChar c ++ rest))
    (stray : ∀ b rest, firstChar? (b :: rest) = none → motive rest → motive (b :: rest))
    (bs : List UInt8) : motive bs := by
  -- on the length, since an encoding has between one and four bytes
  induction hn : bs.length using Nat.strongRecOn generalizing bs with
  | ind n ih =>
    subst hn
    cases bs with
    | nil => exact nil
    | cons b rest =>
      rcases hb : firstChar? (b :: rest) with _ | ⟨c, tail⟩
      · exact stray b rest hb (ih _ (by simp) rest rfl)
      · have hbs := firstChar?_eq_some_iff.1 hb
        have hlen := length_utf8EncodeChar_pos c
        have htail : motive tail := ih _ (by rw [hbs, length_append]; omega) tail rfl
        rw [hbs]
        exact char c tail htail

/-! ### Stray bytes -/

lemma le_of_firstChar?_eq_none (h : firstChar? (b :: rest) = none) : 0x80 ≤ b := by
  refine UInt8.not_lt.1 fun hb => ?_
  simp only [firstChar?, if_pos hb] at h
  cases h

lemma toNat_strayChar (b : UInt8) : (strayChar b).toNat = strayBase + b.toNat := by
  have hb := b.toNat_lt
  exact toNat_ofNat (Or.inr (by simp only [strayBase]; omega))

lemma isStray_strayChar (h : 0x80 ≤ b) : isStray (strayChar b) := by
  have hb : 0x80 ≤ b.toNat := UInt8.le_iff_toNat_le.1 h
  simp only [isStray, toNat_strayChar, decide_eq_true_eq]
  omega

def piece (c : Char) : List UInt8 :=
  if isStray c then [UInt8.ofNat (c.toNat - strayBase)] else String.utf8EncodeChar c

lemma piece_strayChar (h : 0x80 ≤ b) : piece (strayChar b) = [b] := by
  rw [piece, if_pos (isStray_strayChar h), toNat_strayChar, Nat.add_sub_cancel_left, UInt8.ofNat_toNat]

lemma le_of_mem_utf8EncodeChar (h : 0x80 ≤ c.toNat) : ∀ b ∈ String.utf8EncodeChar c, 0x80 ≤ b := by
  rw [← c.ofNat_toNat, utf8EncodeChar_ofNat (n := c.toNat) c.valid, if_neg (by omega)]
  simp only [UInt8.le_iff_toNat_le, UInt8.reduceToNat]
  split_ifs <;>
    simp only [mem_cons, not_mem_nil, or_false, forall_eq_or_imp, forall_eq, UInt8.toNat_ofNat'] <;> omega

lemma le_toNat_of_isStray (h : isStray c) : 0x80 ≤ c.toNat := by
  have hc : strayBase + 0x80 ≤ c.toNat := of_decide_eq_true h
  omega

/-! ### Texts and bytes -/

lemma toBytes_eq_flatMap (s : String) : toBytes s = s.toList.flatMap piece := by
  rw [toBytes]
  split
  · exact flatMap_congr fun c _ => by rw [piece, charBytes_eq]
  · rename_i h
    rw [String.toUTF8_eq_toByteArray, ← String.utf8Encode_toList, utf8Encode, data_toByteArray]
    refine flatMap_congr fun c hc => ?_
    rw [piece, if_neg fun hs => h (any_eq_true.2 ⟨c, hc, hs⟩)]

lemma length_piece_le (c : Char) : (piece c).length ≤ 4 := by
  unfold piece
  split
  · exact show 1 ≤ 4 by decide
  · rw [String.length_utf8EncodeChar]
    exact c.utf8Size_le_four

lemma length_toBytes_le (s : String) : (toBytes s).length ≤ 4 * s.toList.length := by
  rw [toBytes_eq_flatMap]
  induction s.toList with
  | nil => exact Nat.le_refl 0
  | cons c cs ih =>
    have hc := length_piece_le c
    rw [flatMap_cons, length_append, length_cons]
    omega

lemma toBytes_append (s t : String) : toBytes (s ++ t) = toBytes s ++ toBytes t := by
  simp only [toBytes_eq_flatMap, String.toList_append, flatMap_append]

lemma toBytes_spelled (c : Char) : toBytes (String.ofList (spelled c)) = String.utf8EncodeChar c := by
  rw [toBytes_eq_flatMap, String.toList_ofList, spelled, charBytes_eq]
  by_cases h : isStray c
  · rw [if_pos h, flatMap_map]
    calc (String.utf8EncodeChar c).flatMap (fun b => piece (strayChar b))
        = (String.utf8EncodeChar c).flatMap (fun b => [b]) :=
          flatMap_congr fun b hb => piece_strayChar (le_of_mem_utf8EncodeChar (le_toNat_of_isStray h) b hb)
      _ = String.utf8EncodeChar c := flatMap_singleton' _
  · rw [if_neg h, flatMap_singleton, piece, if_neg h]

lemma decodeChars_eq_append (fuel : Nat) (acc : List Char) (bs : List UInt8) :
    decodeChars char stray fuel acc bs = acc.reverse ++ decodeChars char stray fuel [] bs := by
  induction fuel generalizing acc bs with
  | zero => simp [decodeChars]
  | succ n ih =>
    cases bs with
    | nil => simp [decodeChars]
    | cons b rest =>
      rcases hb : firstChar? (b :: rest) with _ | ⟨c, tail⟩
      · simp only [decodeChars, hb]
        rw [ih, ih [stray b]]
        simp
      · simp only [decodeChars, hb]
        rw [ih, ih ((char c).reverse ++ [])]
        simp

lemma decodeChars_char (fuel : Nat) (c : Char) (rest : List UInt8) :
    decodeChars char stray (fuel + 1) [] (String.utf8EncodeChar c ++ rest) =
      char c ++ decodeChars char stray fuel [] rest := by
  have hc := firstChar?_append c rest
  obtain ⟨b, tail, hb⟩ : ∃ b tail, String.utf8EncodeChar c ++ rest = b :: tail :=
    exists_cons_of_length_pos (by rw [length_append]; have := length_utf8EncodeChar_pos c; omega)
  rw [hb] at hc ⊢
  simp only [decodeChars, hc]
  rw [decodeChars_eq_append, append_nil, reverse_reverse]

lemma decodeChars_stray (fuel : Nat)
    (hb : firstChar? (b :: rest) = none) : decodeChars char stray (fuel + 1) [] (b :: rest) =
      stray b :: decodeChars char stray fuel [] rest := by
  simp only [decodeChars, hb]
  rw [decodeChars_eq_append]
  rfl

lemma decodeChars_of_length_le {fuel : Nat} (h : bs.length ≤ fuel) :
    decodeChars char stray fuel [] bs = decodeChars char stray bs.length [] bs := by
  induction bs using bytesInduction generalizing fuel with
  | nil => cases fuel <;> rfl
  | char c rest ih =>
    have hc := length_utf8EncodeChar_pos c
    rw [length_append] at h ⊢
    obtain ⟨n, hn⟩ := Nat.exists_eq_succ_of_ne_zero (Nat.ne_of_gt (Nat.add_pos_left hc rest.length))
    obtain ⟨k, rfl⟩ := Nat.exists_eq_succ_of_ne_zero (show fuel ≠ 0 by omega)
    have hk : rest.length ≤ k := by omega
    have hn' : rest.length ≤ n := by omega
    rw [hn, decodeChars_char, decodeChars_char, ih hk, ih hn']
  | stray b rest hb ih =>
    rw [length_cons] at h ⊢
    obtain ⟨k, rfl⟩ := Nat.exists_eq_succ_of_ne_zero (show fuel ≠ 0 by omega)
    rw [decodeChars_stray _ _ _ hb, decodeChars_stray _ _ _ hb, ih (Nat.le_of_succ_le_succ h)]

abbrev charsOf (char : Char → List Char) (stray : UInt8 → Char) (bs : List UInt8) : List Char :=
  decodeChars char stray bs.length [] bs

lemma charsOf_char (c : Char) (rest : List UInt8) :
    charsOf char stray (String.utf8EncodeChar c ++ rest) = char c ++ charsOf char stray rest := by
  have hc := length_utf8EncodeChar_pos c
  obtain ⟨n, hn⟩ := Nat.exists_eq_succ_of_ne_zero (Nat.ne_of_gt (Nat.add_pos_left hc rest.length))
  rw [charsOf, length_append, hn, decodeChars_char, decodeChars_of_length_le _ _ (show rest.length ≤ n by omega)]

@[simp] lemma ofBytes_nil : ofBytes [] = "" := rfl

lemma ofBytes_char (c : Char) (rest : List UInt8) :
    ofBytes (String.utf8EncodeChar c ++ rest) = String.ofList (spelled c) ++ ofBytes rest :=
  (congrArg String.ofList (charsOf_char ..)).trans String.ofList_append

lemma ofBytes_stray (hb : firstChar? (b :: rest) = none) :
    ofBytes (b :: rest) = String.ofList [strayChar b] ++ ofBytes rest := by
  rw [ofBytes, length_cons, decodeChars_stray _ _ _ hb, ofBytes, ← String.ofList_append]
  rfl

lemma toBytes_ofBytes (bs : List UInt8) : toBytes (ofBytes bs) = bs := by
  induction bs using bytesInduction with
  | nil => rw [ofBytes_nil, toBytes_eq_flatMap, String.toList_empty, flatMap_nil]
  | char c rest ih => rw [ofBytes_char, toBytes_append, toBytes_spelled, ih]
  | stray b rest hb ih =>
    rw [ofBytes_stray hb, toBytes_append, ih, toBytes_eq_flatMap, String.toList_ofList,
      flatMap_singleton, piece_strayChar (le_of_firstChar?_eq_none hb)]
    rfl

/-! ### Texts -/

/-- A string that reading bytes produces. -/
def IsText (s : String) : Prop := ofBytes (toBytes s) = s

lemma isText_ofBytes (bs : List UInt8) : IsText (ofBytes bs) := by
  rw [IsText, toBytes_ofBytes]

lemma IsText.eq (hs : IsText s) (ht : IsText t) (h : toBytes s = toBytes t) : s = t := by
  rw [← hs, h, ht]

/-! ### Joined texts -/

/-- A byte that starts no character starts none either where a single-byte character comes later. -/
lemma firstChar?_append_ascii_eq_none {a : UInt8} (ha : a < 0x80) (h : firstChar? (b :: rest) = none) :
    firstChar? (b :: (rest ++ a :: bs)) = none := by
  refine firstChar?_eq_none_iff.2 fun c ⟨tail, hc⟩ => ?_
  rw [← cons_append] at hc
  rcases append_eq_append_iff.1 hc with ⟨t, ht, -⟩ | ⟨t, ht, hat⟩
  · exact firstChar?_eq_none_iff.1 h c ⟨t, ht.symm⟩
  · cases t with
    | nil => exact firstChar?_eq_none_iff.1 h c ⟨[], by rw [append_nil, ht, append_nil]⟩
    | cons a' t =>
      -- the encoding reaches over the single-byte character, which only a longer encoding could
      obtain rfl : a = a' := (List.cons.inj hat).1
      have hsize : 2 ≤ (String.utf8EncodeChar c).length := by
        rw [ht, length_append, length_cons, length_cons]
        omega
      have hc : 0x80 ≤ c.toNat := by
        by_contra hlt
        rw [← c.ofNat_toNat, utf8EncodeChar_ofNat (n := c.toNat) c.valid, if_pos (by omega)] at hsize
        exact Nat.not_succ_le_self 1 hsize
      have hmem : a ∈ String.utf8EncodeChar c := ht ▸ mem_append_right _ mem_cons_self
      exact UInt8.not_lt.2 (le_of_mem_utf8EncodeChar hc a hmem) ha

/-- A byte below `0x80` takes no part in the reading of the bytes before it. -/
lemma ofBytes_append_ascii (as bs : List UInt8) {a : UInt8} (ha : a < 0x80) :
    ofBytes (as ++ a :: bs) = ofBytes as ++ ofBytes (a :: bs) := by
  induction as using bytesInduction with
  | nil => rw [ofBytes_nil, nil_append, String.empty_append]
  | char c rest ih => rw [append_assoc, ofBytes_char, ih, ofBytes_char, String.append_assoc]
  | stray b rest hb ih =>
    rw [cons_append, ofBytes_stray (firstChar?_append_ascii_eq_none ha hb), ih, ofBytes_stray hb, String.append_assoc]

def IsAscii (s : String) : Prop := ∀ c ∈ s.toList, c.toNat < 0x80

-- by the characters of the text; there is also an instance that goes through all characters
instance (s : String) : Decidable (IsAscii s) := List.decidableBAll (fun c : Char => c.toNat < 0x80) s.toList

lemma isStray_of_ascii (h : c.toNat < 0x80) : isStray c = false := by
  refine Bool.eq_false_iff.2 fun hs => ?_
  have := le_toNat_of_isStray hs
  omega

lemma piece_of_ascii (h : c.toNat < 0x80) : piece c = [UInt8.ofNat c.toNat] := by
  rw [piece, if_neg (by simp [isStray_of_ascii h]), ← c.ofNat_toNat,
    utf8EncodeChar_ofNat (n := c.toNat) c.valid, if_pos (by omega), c.ofNat_toNat]

lemma toBytes_of_ascii (h : IsAscii s) : toBytes s = s.toList.map fun c => UInt8.ofNat c.toNat := by
  rw [toBytes_eq_flatMap, map_eq_flatMap]
  exact flatMap_congr fun c hc => piece_of_ascii (h c hc)

lemma ofBytes_ascii_append (hs : IsAscii s) (bs : List UInt8) : ofBytes (toBytes s ++ bs) = s ++ ofBytes bs := by
  obtain ⟨cs, rfl⟩ := s.exists_eq_ofList
  rw [IsAscii, String.toList_ofList] at hs
  rw [toBytes_eq_flatMap, String.toList_ofList]
  induction cs with
  | nil => rw [flatMap_nil, nil_append, String.ofList_nil, String.empty_append]
  | cons c cs ih =>
    have hc : isStray c = false := isStray_of_ascii (hs c mem_cons_self)
    rw [flatMap_cons, piece, if_neg (by simp [hc]), append_assoc, ofBytes_char,
      ih fun d hd => hs d (mem_cons_of_mem c hd), spelled, if_neg (by simp [hc]), ← String.append_assoc,
      ← String.ofList_append]
    rfl

lemma isText_ascii_append_iff (hs : IsAscii s) : IsText (s ++ t) ↔ IsText t := by
  rw [IsText, toBytes_append, ofBytes_ascii_append hs, String.append_right_inj]
  rfl

lemma IsAscii.isText (hs : IsAscii s) : IsText s := by
  have h := ofBytes_ascii_append hs []
  rwa [append_nil, ofBytes_nil, String.append_empty] at h

lemma IsText.join (hs : IsText s) (sep : String) (ht : IsText t) (hsep : IsAscii sep) (hne : sep ≠ "") :
    IsText (s ++ sep ++ t) := by
  obtain ⟨c, cs, hcs⟩ : ∃ c cs, sep.toList = c :: cs := exists_cons_of_ne_nil fun h => hne (String.toList_eq_nil_iff.1 h)
  have hc : c.toNat < 0x80 := hsep c (hcs ▸ mem_cons_self)
  have hbytes : toBytes sep = UInt8.ofNat c.toNat :: cs.flatMap piece := by
    rw [toBytes_eq_flatMap, hcs, flatMap_cons, piece_of_ascii hc]
    rfl
  have hlt : UInt8.ofNat c.toNat < 0x80 := by
    rw [UInt8.lt_iff_toNat_lt, UInt8.toNat_ofNat']
    exact Nat.lt_of_le_of_lt (Nat.mod_le ..) hc
  have hrest : IsText (sep ++ t) := (isText_ascii_append_iff hsep).2 ht
  rw [IsText, toBytes_append, hbytes, cons_append] at hrest
  rw [String.append_assoc, IsText, toBytes_append, toBytes_append, hbytes, cons_append,
    ofBytes_append_ascii _ _ hlt, hs, hrest]

lemma isText_intercalate (sep : String) (hsep : IsAscii sep) (hne : sep ≠ "") {ss : List String}
    (h : ∀ s ∈ ss, IsText s) : IsText (sep.intercalate ss) := by
  induction ss with
  | nil =>
    rw [String.intercalate_nil]
    exact IsAscii.isText (by decide)
  | cons s ss ih =>
    have hs := h s mem_cons_self
    cases ss with
    | nil => rwa [String.intercalate_singleton]
    | cons t ss =>
      rw [String.intercalate_cons_cons]
      exact hs.join sep (ih fun u hu => h u (mem_cons_of_mem s hu)) hsep hne

/-! ### Texts of characters

A text is valid if it is the text of some characters: no byte of it is a stray one. The characters
can be read off the text again (`toList_shown_ofChars`), and joining texts joins them
(`ofChars_append`). -/

open List

variable {s : String} (cs : List Char)

lemma ofChars_eq : ofChars cs = String.ofList (cs.flatMap spelled) := by
  rw [ofChars]
  split
  · rfl
  · next h =>
    have hplain : cs.flatMap spelled = cs.flatMap fun c => [c] := by
      refine flatMap_congr fun c hc => ?_
      have hstray : ¬ isStray c = true := fun hs => h (any_eq_true.2 ⟨c, hc, hs⟩)
      rw [spelled, if_neg hstray]
    rw [hplain, flatMap_singleton']

@[simp]
lemma ofChars_nil : ofChars [] = "" := rfl

lemma ofChars_append (cs ds : List Char) : ofChars (cs ++ ds) = ofChars cs ++ ofChars ds := by
  rw [ofChars_eq, ofChars_eq, ofChars_eq, flatMap_append, String.ofList_append]

lemma ofChars_cons (c : Char) (cs : List Char) : ofChars (c :: cs) = ofChars [c] ++ ofChars cs :=
  ofChars_append [c] cs

lemma IsAscii.append {t : String} (hs : IsAscii s) (ht : IsAscii t) : IsAscii (s ++ t) := by
  intro c hc
  rw [String.toList_append] at hc
  rcases mem_append.1 hc with hc | hc
  · exact hs c hc
  · exact ht c hc

lemma isAscii_of_digits (h : ∀ c ∈ s.toList, c.isDigit) : IsAscii s := by
  intro c hc
  have hdigit := h c hc
  have hle : c.toNat ≤ '9'.toNat := by
    simp only [Char.isDigit, Bool.and_eq_true, decide_eq_true_eq] at hdigit
    exact UInt32.le_iff_toNat_le.1 hdigit.2
  exact Nat.lt_of_le_of_lt hle (by decide)

lemma ofChars_of_ascii (h : IsAscii s) : ofChars s.toList = s := by
  have hnone : ¬ s.toList.any isStray = true := by
    rw [List.any_eq_true]
    rintro ⟨c, hc, hs⟩
    rw [isStray_of_ascii (h c hc)] at hs
    contradiction
  rw [ofChars, if_neg hnone, String.ofList_toList]

lemma toBytes_ofChars : toBytes (ofChars cs) = cs.flatMap String.utf8EncodeChar := by
  rw [ofChars_eq]
  induction cs with
  | nil => exact toBytes_eq_flatMap _
  | cons c cs ih =>
    rw [flatMap_cons, String.ofList_append, toBytes_append, toBytes_spelled, ih, flatMap_cons]

lemma shownChars_char (c : Char) (rest : List UInt8) :
    shownChars (String.utf8EncodeChar c ++ rest) = c :: shownChars rest :=
  charsOf_char ..

lemma shownChars_encoded : shownChars (cs.flatMap String.utf8EncodeChar) = cs := by
  induction cs with
  | nil => rfl
  | cons c cs ih => rw [flatMap_cons, shownChars_char, ih]

lemma toList_shown (s : String) : (shown s).toList = shownChars (toBytes s) := by
  rw [shown]
  split
  · exact String.toList_ofList
  · next h =>
    -- the bytes are the encodings of the characters
    have hpiece : s.toList.flatMap piece = s.toList.flatMap String.utf8EncodeChar := by
      refine flatMap_congr fun c hc => if_neg fun hs => h ?_
      exact any_eq_true.2 ⟨c, hc, hs⟩
    rw [toBytes_eq_flatMap, hpiece, shownChars_encoded]

/-- The characters of a text can be read off it. -/
@[simp]
lemma toList_shown_ofChars : (shown (ofChars cs)).toList = cs := by
  rw [toList_shown, toBytes_ofChars, shownChars_encoded]

def IsValid (s : String) : Prop := ∃ cs, ofChars cs = s

lemma isValid_ofChars : IsValid (ofChars cs) := ⟨cs, rfl⟩

lemma IsValid.isText (h : IsValid s) : IsText s := by
  obtain ⟨cs, rfl⟩ := h
  rw [IsText, toBytes_ofChars, ofChars_eq]
  induction cs with
  | nil => rfl
  | cons c cs ih => rw [flatMap_cons, ofBytes_char, ih, flatMap_cons, String.ofList_append]

lemma IsAscii.isValid (h : IsAscii s) : IsValid s := ⟨s.toList, ofChars_of_ascii h⟩

lemma IsValid.ofChars_shown (h : IsValid s) : ofChars (shown s).toList = s := by
  obtain ⟨cs, rfl⟩ := h
  rw [toList_shown_ofChars]

instance (s : String) : Decidable (IsValid s) :=
  if h : IsAscii s then .isTrue h.isValid
  else decidable_of_iff (ofChars (shown s).toList = s) ⟨fun h => ⟨_, h⟩, IsValid.ofChars_shown⟩

/-! ### Repair -/

/-- A text with the replacement character in place of each stray byte. -/
def repaired (s : String) : String := ofChars (shown s).toList

lemma isValid_repaired (s : String) : IsValid (repaired s) := isValid_ofChars _

lemma repaired_eq_self_iff : repaired s = s ↔ IsValid s := ⟨fun h => ⟨_, h⟩, IsValid.ofChars_shown⟩

/-- A repaired text is shown as it was. -/
@[simp]
lemma shown_repaired (s : String) : shown (repaired s) = shown s :=
  String.toList_inj.1 (toList_shown_ofChars _)

lemma piece_ne_nil (c : Char) : piece c ≠ [] := by
  rw [piece]
  split
  · exact cons_ne_nil _ _
  · exact ne_nil_of_length_pos (length_utf8EncodeChar_pos c)

lemma shownChars_ne_nil {bs : List UInt8} (h : bs ≠ []) : shownChars bs ≠ [] := by
  obtain ⟨b, rest, rfl⟩ := exists_cons_of_ne_nil h
  rw [shownChars, length_cons, decodeChars]
  -- the first character is there, and the others are put behind it
  split <;> rw [decodeChars_eq_append] <;> simp

lemma shown_ne_empty (h : s ≠ "") : shown s ≠ "" := by
  obtain ⟨c, cs, hcs⟩ := exists_cons_of_ne_nil (mt String.toList_eq_nil_iff.1 h)
  have hbytes : toBytes s ≠ [] := by
    rw [toBytes_eq_flatMap, hcs, flatMap_cons]
    exact append_ne_nil_of_left_ne_nil (piece_ne_nil c) _
  rw [Ne, ← String.toList_eq_nil_iff, toList_shown]
  exact shownChars_ne_nil hbytes

@[simp]
lemma repaired_eq_empty_iff : repaired s = "" ↔ s = "" := by
  constructor
  · intro h
    have hshown : shown s = "" := by
      rw [← shown_repaired, h]
      exact String.toList_inj.1 (toList_shown_ofChars [])
    exact not_imp_not.1 shown_ne_empty hshown
  · rintro rfl
    exact repaired_eq_self_iff.2 (isValid_ofChars [])

lemma shownChars_stray {b : UInt8} {rest : List UInt8} (hb : firstChar? (b :: rest) = none) :
    shownChars (b :: rest) = '�' :: shownChars rest := by
  rw [shownChars, length_cons, decodeChars_stray _ _ _ hb]
  rfl

lemma lt_of_shownChars {bs : List UInt8} (h : ∀ c ∈ shownChars bs, c.toNat < 0x80) : ∀ b ∈ bs, b < 0x80 := by
  induction bs using bytesInduction with
  | nil => exact nofun
  | char c rest ih =>
    rw [shownChars_char, forall_mem_cons] at h
    have hpiece := piece_of_ascii h.1
    rw [piece, isStray_of_ascii h.1, if_neg Bool.false_ne_true] at hpiece
    rw [hpiece, singleton_append, forall_mem_cons]
    refine ⟨UInt8.lt_iff_toNat_lt.2 ?_, ih h.2⟩
    rw [UInt8.toNat_ofNat']
    exact Nat.lt_of_le_of_lt (Nat.mod_le _ _) h.1
  | stray b rest hb ih =>
    rw [shownChars_stray hb, forall_mem_cons] at h
    exact absurd h.1 (by decide)

lemma toNat_lt_of_ofChars {cs : List Char} (h : IsAscii (ofChars cs)) : ∀ c ∈ cs, c.toNat < 0x80 := by
  intro c hc
  rw [ofChars_eq] at h
  have hspelled : ∀ x ∈ spelled c, x.toNat < 0x80 := fun x hx =>
    h x (by rw [String.toList_ofList]; exact mem_flatMap.2 ⟨c, hc, hx⟩)
  rw [spelled] at hspelled
  split at hspelled
  · -- a stray byte does not stand as an ASCII character
    obtain ⟨b, bs, hbs⟩ := exists_cons_of_ne_nil (ne_nil_of_length_pos (length_utf8EncodeChar_pos c))
    rw [charBytes_eq, hbs, map_cons, forall_mem_cons, toNat_strayChar, strayBase] at hspelled
    omega
  · exact hspelled c mem_cons_self

lemma repaired_eq_self_of_isAscii (h : IsAscii (repaired s)) : repaired s = s := by
  by_cases hstray : s.toList.any isStray = true
  · rw [repaired, toList_shown] at h
    have hbytes := lt_of_shownChars (toNat_lt_of_ofChars h)
    obtain ⟨c, hc, hs⟩ := any_eq_true.1 hstray
    have hle : strayBase + 0x80 ≤ c.toNat := of_decide_eq_true hs
    have hlt : c.toNat < 0x110000 := by
      have hvalid : c.toNat.isValidChar := c.valid
      rcases hvalid with h | h <;> omega
    have hmem : UInt8.ofNat (c.toNat - strayBase) ∈ toBytes s := by
      rw [toBytes_eq_flatMap]
      exact mem_flatMap.2 ⟨c, hc, by rw [piece, if_pos hs]; exact mem_singleton_self _⟩
    have hbyte := UInt8.lt_iff_toNat_lt.1 (hbytes _ hmem)
    rw [UInt8.toNat_ofNat', strayBase] at hbyte
    rw [strayBase] at hle
    have h80 : (0x80 : UInt8).toNat = 0x80 := rfl
    omega
  · rw [repaired, shown, if_neg hstray, ofChars, if_neg hstray, String.ofList_toList]

/-! ### The parts of a text -/

def partBytes (us : List (Char ⊕ UInt8)) : List UInt8 := us.flatMap (Sum.elim String.utf8EncodeChar fun b => [b])

/-- Whether parts are those that their bytes are read as: no stray byte starts a character. -/
def AreParts (us : List (Char ⊕ UInt8)) : Prop :=
  ∀ xs b ys, us = xs ++ .inr b :: ys → firstChar? (b :: partBytes ys) = none

lemma AreParts.of_infix {us vs : List (Char ⊕ UInt8)} (h : AreParts us) (hvs : vs <:+: us) : AreParts vs := by
  rintro xs b ys rfl
  obtain ⟨l, r, rfl⟩ := hvs
  have hnone := h (l ++ xs) b (ys ++ r) (by simp)
  rw [partBytes, flatMap_append] at hnone
  exact firstChar?_eq_none_iff.2 fun c hc => firstChar?_eq_none_iff.1 hnone c (hc.trans (prefix_append (b :: _) _))

lemma AreParts.charsOf_eq {us : List (Char ⊕ UInt8)} (h : AreParts us) (char : Char → List Char)
    (stray : UInt8 → Char) : charsOf char stray (partBytes us) = us.flatMap (Sum.elim char fun b => [stray b]) := by
  induction us with
  | nil => rfl
  | cons u us ih =>
    have hus := ih (h.of_infix (suffix_cons u us).isInfix)
    rw [flatMap_cons, ← hus]
    cases u with
    | inl c => exact charsOf_char char stray c _
    | inr b => exact decodeChars_stray char stray _ (h [] b us rfl)

lemma exists_areParts (bs : List UInt8) : ∃ us, AreParts us ∧ partBytes us = bs := by
  induction bs using bytesInduction with
  | nil => exact ⟨[], fun xs b ys h => by simp at h, rfl⟩
  | char c rest ih =>
    obtain ⟨us, hus, rfl⟩ := ih
    refine ⟨.inl c :: us, fun xs b ys h => ?_, rfl⟩
    rcases cons_eq_append_iff.1 h with ⟨-, h⟩ | ⟨xs, -, h⟩
    · cases h
    · exact hus xs b ys h
  | stray b rest hb ih =>
    obtain ⟨us, hus, rfl⟩ := ih
    refine ⟨.inr b :: us, fun xs d ys h => ?_, rfl⟩
    rcases cons_eq_append_iff.1 h with ⟨-, h⟩ | ⟨xs, -, h⟩
    · cases h
      exact hb
    · exact hus xs d ys h

end BytecodeAudit.Text
