import BytecodeAudit.Proofs.Text.Lossless

/-!
# Names in normal form

A name is trimmed and lowered before it is compared. A text that was trimmed and lowered stays as it
is (`lower_trim_lower_trim`), since lowering neither makes nor removes a blank. What this needs of
the table of small letters is checked by evaluation: the runs lead to characters past the blank ones
(`isSound`), and to none that is in a run again (`isApart`).
-/

namespace BytecodeAudit.Text

open List CaseRun

variable {α : Type} {c : Char} {p : Char → Bool} {cs : List Char}

namespace CaseRun

def holds (r : CaseRun) (n : Nat) : Bool := r.first ≤ n && n ≤ r.last && (n - r.first) % r.step == 0

/-- Where the first code point of a run leads to. -/
def low (r : CaseRun) : Nat := (r.first + r.shift).toNat

/-- Where the last code point of a run leads to. -/
def high (r : CaseRun) : Nat := (r.last + r.shift).toNat

/-- The distance of the code points that a run leads to, zero for a single one. -/
def stride (r : CaseRun) : Nat := if r.first == r.last then 0 else r.step

def blankRanges : List (Nat × Nat) :=
  [(0x85, 0x85), (0xa0, 0xa0), (0x1680, 0x1680), (0x2000, 0x200a), (0x2028, 0x2029), (0x202f, 0x202f),
    (0x205f, 0x205f), (0x3000, 0x3000)]

/-- Whether a run leads from code points beyond ASCII to characters past the capitals, neither of
them blank. -/
def isSound (r : CaseRun) : Bool :=
  0x80 ≤ r.first && 0x61 ≤ r.low && (r.high < 0xd800 || (0xe000 ≤ r.low && r.high < 0x110000)) &&
    blankRanges.all fun (a, b) => (r.last < a || b < r.first) && (r.high < a || b < r.low)

/-- Whether no code point of some that are a stride apart is in a run. -/
def isApart (q : CaseRun) (low high stride : Nat) : Bool :=
  Nat.blt high q.first || Nat.blt q.last low || (stride % q.step == 0 && (low - q.first) % q.step != 0)

end CaseRun

lemma isSound_of_mem : ∀ r ∈ lowerRuns.toList, r.isSound := by decide +kernel

lemma isApart_of_mem :
    ∀ r ∈ lowerRuns.toList, ∀ q ∈ lowerRuns.toList, q.isApart r.low r.high r.stride := by decide +kernel

lemma shiftOf_cases (n : Nat) : (∃ r ∈ lowerRuns.toList, r.holds n ∧ shiftOf lowerRuns n = r.shift) ∨
    (∀ r ∈ lowerRuns.toList, r.holds n = false) ∧ shiftOf lowerRuns n = 0 := by
  rw [shiftOf]
  split
  · next r hr =>
    have hholds := Array.find?_some hr
    exact .inl ⟨r, Array.mem_toList_iff.2 (Array.mem_of_find?_eq_some hr), hholds, rfl⟩
  · next hr =>
    refine .inr ⟨fun r hmem => ?_, rfl⟩
    simpa [holds] using Array.find?_eq_none.1 hr r (Array.mem_toList_iff.1 hmem)

lemma toNat_lowerChar_of_holds (hc : 0x80 ≤ c.toNat) {r : CaseRun} (hr : r ∈ lowerRuns.toList)
    (hholds : r.holds c.toNat) (hshift : shiftOf lowerRuns c.toNat = r.shift) :
    r.low ≤ (lowerChar c).toNat ∧ (lowerChar c).toNat ≤ r.high ∧ (lowerChar c).toNat - r.low = c.toNat - r.first := by
  have hsound := isSound_of_mem r hr
  simp only [isSound, Bool.and_eq_true, Bool.or_eq_true, decide_eq_true_eq] at hsound
  simp only [holds, Bool.and_eq_true, decide_eq_true_eq] at hholds
  obtain ⟨⟨⟨-, hlow⟩, hrange⟩, -⟩ := hsound
  obtain ⟨⟨hfirst, hlast⟩, -⟩ := hholds
  have hvalid : ((c.toNat : Int) + r.shift).toNat.isValidChar := by
    simp only [low, high] at hlow hrange
    simp only [Nat.isValidChar]
    omega
  have hnat : (lowerChar c).toNat = ((c.toNat : Int) + r.shift).toNat := by
    rw [lowerChar, if_neg (by omega), hshift]
    exact toNat_ofNat hvalid
  rw [hnat]
  simp only [low, high] at hlow ⊢
  omega

lemma lowerChar_of_not_holds (hc : 0x80 ≤ c.toNat) (hshift : shiftOf lowerRuns c.toNat = 0) : lowerChar c = c := by
  rw [lowerChar, if_neg (by omega), hshift, Int.add_zero, Int.toNat_natCast, Char.ofNat_toNat]

lemma not_holds_of_isApart {q r : CaseRun} {n m : Nat} (hapart : q.isApart r.low r.high r.stride)
    (hholds : r.holds n) (hlow : r.low ≤ m) (hhigh : m ≤ r.high) (hm : m - r.low = n - r.first) :
    q.holds m = false := by
  simp only [isApart, Bool.or_eq_true, Bool.and_eq_true, Nat.blt_eq, beq_iff_eq, bne_iff_ne] at hapart
  simp only [holds, Bool.and_eq_true, decide_eq_true_eq, beq_iff_eq] at hholds
  simp only [holds, ← Bool.not_eq_true, Bool.and_eq_true, decide_eq_true_eq, beq_iff_eq]
  rintro ⟨⟨hfirst, hlast⟩, hmod⟩
  rcases hapart with (hbelow | habove) | ⟨hstride, hoff⟩
  · omega
  · omega
  · -- the distance from where the run starts is a multiple of the step, and where it starts is off by some of it
    have hstart : q.first ≤ r.low := by
      by_contra hlt
      rw [Nat.sub_eq_zero_of_le (by omega), Nat.zero_mod] at hoff
      exact hoff rfl
    have hdist : q.step ∣ n - r.first := by
      rw [stride] at hstride
      split at hstride
      · next hsingle =>
        rw [show n - r.first = 0 by have := eq_of_beq hsingle; omega]
        exact Nat.dvd_zero _
      · exact Nat.dvd_trans (Nat.dvd_of_mod_eq_zero hstride) (Nat.dvd_of_mod_eq_zero hholds.2)
    have hsplit : m - q.first = (r.low - q.first) + (n - r.first) := by omega
    rw [hsplit, Nat.add_mod, Nat.mod_eq_zero_of_dvd hdist, Nat.add_zero, Nat.mod_mod] at hmod
    exact hoff hmod

/-! ### Lowering -/

lemma lowerChar_ascii : ∀ n < 0x80, lowerChar (lowerChar (Char.ofNat n)) = lowerChar (Char.ofNat n) ∧
    isBlank (lowerChar (Char.ofNat n)) = isBlank (Char.ofNat n) ∧
      (0x61 ≤ n → lowerChar (Char.ofNat n) = Char.ofNat n) := by decide

lemma lowerChar_lowerChar (c : Char) : lowerChar (lowerChar c) = lowerChar c := by
  by_cases hc : c.toNat < 0x80
  · rw [← Char.ofNat_toNat c]
    exact (lowerChar_ascii _ hc).1
  rw [Nat.not_lt] at hc
  obtain ⟨r, hr, hholds, hshift⟩ | ⟨-, hshift⟩ := shiftOf_cases c.toNat
  · obtain ⟨hlow, hhigh, hm⟩ := toNat_lowerChar_of_holds hc hr hholds hshift
    by_cases hascii : (lowerChar c).toNat < 0x80
    · have hsound := isSound_of_mem r hr
      simp only [isSound, Bool.and_eq_true, decide_eq_true_eq] at hsound
      have hsmall := (lowerChar_ascii _ hascii).2.2 (by omega)
      rwa [Char.ofNat_toNat] at hsmall
    · obtain ⟨q, hq, hqholds, -⟩ | ⟨-, hnone⟩ := shiftOf_cases (lowerChar c).toNat
      · rw [not_holds_of_isApart (isApart_of_mem r hr q hq) hholds hlow hhigh hm] at hqholds
        cases hqholds
      · exact lowerChar_of_not_holds (Nat.not_lt.1 hascii) hnone
  · rw [lowerChar_of_not_holds hc hshift, lowerChar_of_not_holds hc hshift]

lemma isBlank_iff (hc : 0x61 ≤ c.toNat) : isBlank c = true ↔ ∃ ab ∈ blankRanges, ab.1 ≤ c.toNat ∧ c.toNat ≤ ab.2 := by
  simp only [isBlank, blankRanges, Bool.or_eq_true, Bool.and_eq_true, decide_eq_true_eq, beq_iff_eq,
    mem_cons, not_mem_nil, or_false, exists_eq_or_imp, exists_eq_left]
  omega

lemma isBlank_lowerChar (c : Char) : isBlank (lowerChar c) = isBlank c := by
  by_cases hc : c.toNat < 0x80
  · rw [← Char.ofNat_toNat c]
    exact (lowerChar_ascii _ hc).2.1
  rw [Nat.not_lt] at hc
  obtain ⟨r, hr, hholds, hshift⟩ | ⟨-, hshift⟩ := shiftOf_cases c.toNat
  · obtain ⟨hlow, hhigh, -⟩ := toNat_lowerChar_of_holds hc hr hholds hshift
    have hsound := isSound_of_mem r hr
    simp only [isSound, Bool.and_eq_true, Bool.or_eq_true, decide_eq_true_eq, all_eq_true] at hsound
    simp only [holds, Bool.and_eq_true, decide_eq_true_eq] at hholds
    have hto : ¬ isBlank (lowerChar c) = true := by
      rw [isBlank_iff (by omega)]
      rintro ⟨ab, hab, hle, hge⟩
      have := (hsound.2 ab hab).2
      omega
    have hfrom : ¬ isBlank c = true := by
      rw [isBlank_iff (by omega)]
      rintro ⟨ab, hab, hle, hge⟩
      have := (hsound.2 ab hab).1
      omega
    rw [Bool.not_eq_true _ |>.mp hto, Bool.not_eq_true _ |>.mp hfrom]
  · rw [lowerChar_of_not_holds hc hshift]

/-! ### Trimming -/

section

-- what an element stands as is dropped as a whole or not at all
variable {f : α → List Char} {q : α → Bool} (hdrop : ∀ x, q x = true → ∃ c, f x = [c] ∧ p c = true)
  (hkeep : ∀ x, q x = false → f x ≠ [] ∧ ∀ d ∈ f x, p d = false)
include hdrop hkeep

lemma dropWhile_flatMap (xs : List α) : (xs.flatMap f).dropWhile p = (xs.dropWhile q).flatMap f := by
  induction xs with
  | nil => rfl
  | cons x xs ih =>
    cases hx : q x with
    | true =>
      obtain ⟨c, hc, hpc⟩ := hdrop x hx
      rw [flatMap_cons, hc, singleton_append, dropWhile_cons_of_pos hpc, ih, dropWhile_cons_of_pos hx]
    | false =>
      obtain ⟨hne, hpd⟩ := hkeep x hx
      obtain ⟨d, ds, hd⟩ := exists_cons_of_ne_nil hne
      have hpd : p d = false := hpd d (hd ▸ mem_cons_self)
      rw [dropWhile_cons_of_neg (by simp [hx]), flatMap_cons, hd, cons_append, dropWhile_cons_of_neg (by simp [hpd])]

lemma trimBoth_flatMap (xs : List α) : trimBoth p (xs.flatMap f) = (trimBoth q xs).flatMap f := by
  have hback := dropWhile_flatMap (f := reverse ∘ f) (p := p) (q := q)
    (fun x hx => (hdrop x hx).imp fun c hc => ⟨by rw [Function.comp_apply, hc.1]; rfl, hc.2⟩) fun x hx =>
      ⟨reverse_ne_nil_iff.2 (hkeep x hx).1, fun d hd => (hkeep x hx).2 d (mem_reverse.1 hd)⟩
  have hreverse : reverse ∘ reverse ∘ f = f := funext fun _ => reverse_reverse _
  rw [trimBoth, dropWhile_flatMap hdrop hkeep, reverse_flatMap, hback, reverse_flatMap, hreverse, trimBoth]

end

lemma trimBoth_isPrefix (q : α → Bool) (xs : List α) : trimBoth q xs <+: xs.dropWhile q := by
  have hback := reverse_prefix.2 (dropWhile_suffix q (l := (xs.dropWhile q).reverse))
  rwa [reverse_reverse] at hback

lemma isBlank_of_le (h : strayBase ≤ c.toNat) : isBlank c = false := by
  rw [strayBase] at h
  rw [← Bool.not_eq_true]
  simp only [isBlank, Bool.or_eq_true, Bool.and_eq_true, decide_eq_true_eq, beq_iff_eq]
  omega

lemma isBlank_strayChar (b : UInt8) : isBlank (strayChar b) = false :=
  isBlank_of_le (by rw [toNat_strayChar]; exact Nat.le_add_right ..)

lemma spelled_of_isBlank (h : isBlank c) : ∃ d, spelled c = [d] ∧ isBlank d := by
  refine ⟨c, if_neg fun hstray => ?_, h⟩
  rw [isBlank_of_le (Nat.le_of_add_right_le (of_decide_eq_true hstray))] at h
  cases h

lemma spelled_of_not_isBlank (h : isBlank c = false) : spelled c ≠ [] ∧ ∀ d ∈ spelled c, isBlank d = false := by
  rw [spelled]
  split
  · rw [charBytes_eq]
    refine ⟨fun hnil => ?_, fun d hd => ?_⟩
    · exact absurd (map_eq_nil_iff.1 hnil) (ne_nil_of_length_pos (length_utf8EncodeChar_pos c))
    · obtain ⟨b, -, rfl⟩ := mem_map.1 hd
      exact isBlank_strayChar b
  · exact ⟨cons_ne_nil _ _, forall_mem_singleton.2 h⟩

lemma trim_ofChars (cs : List Char) : trim (ofChars cs) = ofChars (trimBoth isBlank cs) := by
  rw [trim, ofChars_eq, ofChars_eq, String.toList_ofList,
    trimBoth_flatMap (fun _ => spelled_of_isBlank) fun _ => spelled_of_not_isBlank]

def isBlankPart : Char ⊕ UInt8 → Bool := Sum.elim isBlank fun _ => false

/-- Trimming the parts of a text trims its characters, whatever the characters that are not blank
stand as. -/
lemma AreParts.charsOf_trimBoth {us : List (Char ⊕ UInt8)} (h : AreParts us) {char : Char → List Char}
    {stray : UInt8 → Char} (hdrop : ∀ c, isBlank c → ∃ d, char c = [d] ∧ isBlank d)
    (hkeep : ∀ c, isBlank c = false → char c ≠ [] ∧ ∀ d ∈ char c, isBlank d = false)
    (hstray : ∀ b, isBlank (stray b) = false) : charsOf char stray (partBytes (trimBoth isBlankPart us)) =
      trimBoth isBlank (charsOf char stray (partBytes us)) := by
  have hinfix := (trimBoth_isPrefix isBlankPart us).isInfix.trans (dropWhile_suffix isBlankPart).isInfix
  rw [h.charsOf_eq, (h.of_infix hinfix).charsOf_eq, trimBoth_flatMap (q := isBlankPart)]
  · rintro (c | b) hx
    · exact hdrop c hx
    · cases hx
  · rintro (c | b) hx
    · exact hkeep c hx
    · exact ⟨cons_ne_nil _ _, forall_mem_singleton.2 (hstray b)⟩

lemma toList_shown_trim {s : String} (h : IsText s) :
    (shown (trim s)).toList = trimBoth isBlank (shown s).toList := by
  obtain ⟨us, hus, hbytes⟩ := exists_areParts (toBytes s)
  have htrim : trim s = ofBytes (partBytes (trimBoth isBlankPart us)) := by
    rw [trim, ← h, ← hbytes, ofBytes, String.toList_ofList]
    refine congrArg String.ofList (hus.charsOf_trimBoth ?_ ?_ isBlank_strayChar).symm
    · exact fun _ => spelled_of_isBlank
    · exact fun _ => spelled_of_not_isBlank
  rw [toList_shown, htrim, toBytes_ofBytes, toList_shown, ← hbytes]
  refine hus.charsOf_trimBoth (fun c hc => ⟨c, rfl, hc⟩) (fun c hc => ?_) fun _ => by decide
  exact ⟨cons_ne_nil _ _, forall_mem_singleton.2 hc⟩

lemma lower_ofChars (cs : List Char) : lower (ofChars cs) = ofChars (cs.map lowerChar) := by
  rw [lower, toList_shown_ofChars]

lemma trimBoth_map_lowerChar (cs : List Char) :
    trimBoth isBlank (cs.map lowerChar) = (trimBoth isBlank cs).map lowerChar := by
  have hblank : isBlank ∘ lowerChar = isBlank := funext isBlank_lowerChar
  rw [trimBoth, trimBoth, dropWhile_map, hblank, ← map_reverse, dropWhile_map, hblank, map_reverse]

lemma dropWhile_eq_self (h : ∀ c, cs.head? = some c → p c = false) : cs.dropWhile p = cs := by
  cases cs with
  | nil => rfl
  | cons c cs => exact dropWhile_cons_of_neg (by simp [h c rfl])

lemma head?_dropWhile (h : (cs.dropWhile p).head? = some c) : p c = false := by
  have hnot := head?_dropWhile_not p cs
  rwa [h] at hnot

lemma trimBoth_trimBoth (p : Char → Bool) (cs : List Char) : trimBoth p (trimBoth p cs) = trimBoth p cs := by
  have hfront : (trimBoth p cs).dropWhile p = trimBoth p cs := by
    refine dropWhile_eq_self fun c hc => @head?_dropWhile c p cs ?_
    obtain ⟨rest, hrest⟩ := trimBoth_isPrefix p cs
    rw [← hrest, head?_append, hc]
    rfl
  have hback : ((trimBoth p cs).reverse).dropWhile p = (trimBoth p cs).reverse := by
    rw [trimBoth, reverse_reverse]
    exact dropWhile_eq_self fun c hc => head?_dropWhile hc
  rw [trimBoth, hfront, hback, reverse_reverse]

lemma lower_trim_lower_trim {s : String} (h : IsText s) : lower (trim (lower (trim s))) = lower (trim s) := by
  have hlower : lowerChar ∘ lowerChar = lowerChar := funext lowerChar_lowerChar
  have hname : lower (trim s) = ofChars ((trimBoth isBlank (shown s).toList).map lowerChar) := by
    rw [lower, toList_shown_trim h]
  rw [hname, trim_ofChars, lower_ofChars, trimBoth_map_lowerChar, trimBoth_trimBoth, map_map, hlower]

lemma trimBoth_eq_self (h : ∀ c ∈ cs, p c = false) : trimBoth p cs = cs := by
  rw [trimBoth, dropWhile_eq_self fun c hc => h c (mem_of_mem_head? hc),
    dropWhile_eq_self fun c hc => h c (mem_reverse.1 (mem_of_mem_head? hc)), reverse_reverse]

/-- Whether a text is written in small letters without blanks. -/
def IsSmall (s : String) : Prop := ∀ c ∈ s.toList, isBlank c = false ∧ lowerChar c = c

instance (s : String) : Decidable (IsSmall s) :=
  List.decidableBAll (fun c => isBlank c = false ∧ lowerChar c = c) s.toList

lemma lower_trim_eq_self {s : String} (hascii : IsAscii s) (h : IsSmall s) : lower (trim s) = s := by
  have hlower : s.toList.map lowerChar = s.toList := (map_congr_left fun c hc => (h c hc).2).trans (map_id _)
  conv_lhs => rw [← ofChars_of_ascii hascii]
  rw [trim_ofChars, lower_ofChars, trimBoth_eq_self fun c hc => (h c hc).1, hlower, ofChars_of_ascii hascii]

end BytecodeAudit.Text
