import Mathlib.Tactic.IntervalCases
import BytecodeAudit.Json.Basic
import BytecodeAudit.Proofs.Text.Lossless

/-!
# Documents are read back

A value that was written over several lines or on one is read back, if its containers do not nest
deeper than the reader follows them, its texts are valid and its numbers whole (`parse?_pretty`,
`parse?_compress`). `layout` gives the characters of a value, for any blanks between its parts; the
reader goes through them with fuel for two calls for every character.
-/

namespace BytecodeAudit.Json

open List Option

/-! ### Strings -/

lemma hexUnit?_escaped {c : Char}
    (hc : c.toNat < 0x20 ∨ c.toNat = 0x3c ∨ c.toNat = 0x3e ∨ c.toNat = 0x26 ∨ c.toNat = 0x2028 ∨ c.toNat = 0x2029)
    (more : List Char) : hexUnit? ((Text.hexDigits 4 c.toNat).toList ++ more) = some (c.toNat, more) := by
  generalize c.toNat = n at hc
  rcases hc with hn | rfl | rfl | rfl | rfl | rfl
  · interval_cases n <;> rfl
  all_goals rfl

lemma unitChar_toNat (c : Char) (rest : List Char) : unitChar c.toNat rest = (c, rest) := by
  have hvalid : c.toNat < 0xd800 ∨ 0xe000 ≤ c.toNat := by
    rcases c.valid with h | h
    · exact .inl h
    · exact .inr h.1
  have hhigh : (0xd800 ≤ c.toNat && decide (c.toNat < 0xdc00)) = false := by
    rcases hvalid with h | h <;> simp <;> omega
  have hlow : (0xdc00 ≤ c.toNat && decide (c.toNat < 0xe000)) = false := by
    rcases hvalid with h | h <;> simp <;> omega
  rw [unitChar, if_neg (by simp [hhigh]), if_neg (by simp [hlow]), c.ofNat_toNat]

lemma eq_of_toNat_eq {c d : Char} (h : c.toNat = d.toNat) : c = d := by
  rw [← c.ofNat_toNat, h, d.ofNat_toNat]

variable (n : Nat)

lemma stringBody_plain (acc : List Char) {c : Char} (hquote : c ≠ '"') (hslash : c ≠ '\\')
    (hc : 0x20 ≤ c.toNat) (rest : List Char) :
    stringBody (n + 1) acc (c :: rest) = stringBody n (c :: acc) rest := by
  have hnot : ¬ (decide (c.toNat < 0x20) || c == '\\') = true := by
    simp only [Bool.or_eq_true, decide_eq_true_eq, beq_iff_eq, hslash, or_false]
    omega
  rw [stringBody.eq_def]
  split
  · contradiction
  · contradiction
  · next heq => exact absurd (List.cons.inj heq).1 hquote
  · next heq => exact absurd (List.cons.inj heq).1 hslash
  · next heq => exact absurd (List.cons.inj heq).1 hslash
  · next hn heq =>
    cases heq
    obtain rfl : n = _ := Nat.succ.inj hn
    rw [if_neg hnot]

lemma stringBody_escaped (acc : List Char) (c : Char) (rest : List Char) :
    stringBody (n + 1) acc (escaped c ++ rest) = stringBody n (c :: acc) rest := by
  unfold escaped
  split
  · rfl
  · rfl
  · rfl
  · rfl
  · rfl
  · next hquote hslash _ _ _ =>
    by_cases h8 : c.toNat = 0x08
    · obtain rfl : c = Char.ofNat 8 := eq_of_toNat_eq h8
      rfl
    by_cases h12 : c.toNat = 0x0c
    · obtain rfl : c = Char.ofNat 12 := eq_of_toNat_eq h12
      rfl
    simp only [beq_iff_eq, h8, h12, if_false]
    split
    · next hcode =>
      simp only [Bool.or_eq_true, decide_eq_true_eq, beq_iff_eq] at hcode
      have hunit := hexUnit?_escaped (c := c) (by tauto) rest
      have hchars : ("\\u" ++ Text.hexDigits 4 c.toNat).toList ++ rest =
          '\\' :: 'u' :: ((Text.hexDigits 4 c.toNat).toList ++ rest) := by
        rw [String.toList_append, append_assoc]
        rfl
      rw [hchars, stringBody, hunit]
      exact congrArg (fun p : Char × List Char => stringBody n (p.1 :: acc) p.2) (unitChar_toNat c rest)
    · next hcode =>
      simp only [Bool.or_eq_true, decide_eq_true_eq, not_or] at hcode
      exact stringBody_plain n acc hquote hslash (by omega) rest

lemma stringBody_quoted (cs : List Char) (acc : List Char) {fuel : Nat} (hfuel : cs.length < fuel)
    (rest : List Char) :
    stringBody fuel acc (cs.flatMap escaped ++ '"' :: rest) = some (Text.ofChars (acc.reverse ++ cs), rest) := by
  induction cs generalizing acc fuel with
  | nil =>
    obtain ⟨n, rfl⟩ := Nat.exists_eq_succ_of_ne_zero (Nat.ne_of_gt hfuel)
    rw [append_nil]
    rfl
  | cons c cs ih =>
    obtain ⟨n, rfl⟩ := Nat.exists_eq_succ_of_ne_zero (Nat.ne_of_gt (Nat.zero_lt_of_lt hfuel))
    have hn : cs.length < n := by
      rw [length_cons] at hfuel
      omega
    rw [flatMap_cons, append_assoc, stringBody_escaped, ih (c :: acc) hn, reverse_cons, append_assoc, singleton_append]

lemma length_escaped_pos (c : Char) : 0 < (escaped c).length := by
  unfold escaped
  split
  all_goals try exact Nat.zero_lt_succ _
  dsimp only
  split
  · exact Nat.zero_lt_succ _
  split
  · exact Nat.zero_lt_succ _
  split
  · rw [String.toList_append, length_append]
    exact Nat.lt_add_right _ (Nat.zero_lt_succ 1)
  · exact Nat.zero_lt_succ _

lemma length_le_length_flatMap_escaped (cs : List Char) : cs.length ≤ (cs.flatMap escaped).length := by
  induction cs with
  | nil => exact Nat.le_refl 0
  | cons c cs ih =>
    have hc := length_escaped_pos c
    rw [length_cons, flatMap_cons, length_append]
    omega

def quotedChars (s : String) : List Char := '"' :: ((Text.shown s).toList.flatMap escaped ++ ['"'])

lemma quotedString_eq (s : String) : quotedString s = Text.ofChars (quotedChars s) := by
  have hquote : Text.ofChars ['"'] = "\"" := rfl
  rw [quotedString, quotedChars, ← singleton_append, Text.ofChars_append, Text.ofChars_append, hquote,
    String.append_assoc]

lemma stringBody_quotedChars {s : String} (hs : Text.IsValid s) (rest : List Char) :
    stringBody ((quotedChars s ++ rest).tail.length + 1) [] (quotedChars s ++ rest).tail = some (s, rest) := by
  have hfuel : (Text.shown s).toList.length < (quotedChars s ++ rest).tail.length + 1 := by
    have hle := length_le_length_flatMap_escaped (Text.shown s).toList
    simp only [quotedChars, cons_append, tail_cons, length_append, length_cons]
    omega
  have hread := stringBody_quoted (Text.shown s).toList [] hfuel rest
  rw [reverse_nil, nil_append, hs.ofChars_shown] at hread
  simpa only [quotedChars, cons_append, tail_cons, append_assoc, nil_append] using hread

/-! ### Numbers -/

/-- Whether a text can follow a number: it does not go on with one. -/
def EndsNumber (rest : List Char) : Prop :=
  ∀ c ∈ rest.head?, c.isDigit = false ∧ c ≠ '.' ∧ c ≠ 'e' ∧ c ≠ 'E'

lemma takeWhile_isDigit_append {ds rest : List Char} (hds : ∀ c ∈ ds, c.isDigit) (hrest : EndsNumber rest) :
    (ds ++ rest).takeWhile Char.isDigit = ds ∧ (ds ++ rest).dropWhile Char.isDigit = rest := by
  have hstop : rest.takeWhile Char.isDigit = [] ∧ rest.dropWhile Char.isDigit = rest := by
    cases rest with
    | nil => exact ⟨rfl, rfl⟩
    | cons c rest =>
      have hc : c.isDigit = false := (hrest c rfl).1
      simp [hc]
  rw [takeWhile_append_of_pos hds, dropWhile_append_of_pos hds, hstop.1, hstop.2]
  simp

lemma toDigits_eq_zero_or :
    Nat.toDigits 10 n = ['0'] ∨ ∃ d ds, Nat.toDigits 10 n = d :: ds ∧ d ≠ '0' ∧ d ≠ '-' := by
  induction n using Nat.strongRecOn with
  | _ n ih =>
    by_cases hn : n < 10
    · rw [Nat.toDigits_of_lt_base hn]
      interval_cases n
      · exact .inl rfl
      all_goals exact .inr ⟨_, _, rfl, by decide, by decide⟩
    · have hle : 10 ≤ n := by omega
      rw [Nat.toDigits_of_base_le (by decide) hle]
      rcases ih (n / 10) (by omega) with hzero | ⟨d, ds, hds, hd⟩
      · -- a number with more than one digit has no zero before the last
        have hval : Nat.ofDigitChars 10 (Nat.toDigits 10 (n / 10)) 0 = n / 10 := Nat.ofDigitChars_ten_toDigits
        rw [hzero] at hval
        have hval0 : Nat.ofDigitChars 10 ['0'] 0 = 0 := rfl
        omega
      · exact .inr ⟨d, ds ++ [_], by rw [hds, cons_append], hd⟩

lemma digits_toDigits : ∀ c ∈ Nat.toDigits 10 n, c.isDigit :=
  fun _ hc => Nat.isDigit_of_mem_toDigits (by decide) (by decide) hc

lemma toList_toString_int (n : Int) :
    (toString n).toList = (if n < 0 then ['-'] else []) ++ Nat.toDigits 10 n.natAbs := by
  rw [show toString n = n.repr from rfl, Int.repr_eq_if]
  split
  · next h =>
    rw [Nat.repr_eq_ofList_toDigits, String.toList_ofList, if_neg (by omega), nil_append,
      show n.toNat = n.natAbs by omega]
  · next h =>
    rw [Nat.repr_eq_ofList_toDigits, String.toList_append, if_pos (by omega), show (-n).toNat = n.natAbs by omega,
      show "-".toList = ['-'] from rfl, String.toList_ofList]

lemma isDigit_or_of_mem_toString {n : Int} {c : Char} (h : c ∈ (toString n).toList) : c.isDigit ∨ c = '-' := by
  rw [toList_toString_int, mem_append] at h
  rcases h with h | h
  · split at h
    · exact .inr (mem_singleton.1 h)
    · cases h
  · exact .inl (digits_toDigits _ c h)

lemma isAscii_toString_int (n : Int) : Text.IsAscii (toString n) := by
  have hdigits : Text.IsAscii (String.ofList (Nat.toDigits 10 n.natAbs)) :=
    Text.isAscii_of_digits fun c hc => digits_toDigits _ c (by rwa [String.toList_ofList] at hc)
  have hsign : Text.IsAscii (String.ofList (if n < 0 then ['-'] else [])) := by
    split <;> decide
  rw [← String.ofList_toList (s := toString n), toList_toString_int, String.ofList_append]
  exact hsign.append hdigits

lemma numberLiteral?_digits {sign : List Char} (hsign : sign = [] ∨ sign = ['-']) (n : Nat) {rest : List Char}
    (hrest : EndsNumber rest) :
    numberLiteral? (sign ++ Nat.toDigits 10 n ++ rest) = some (String.ofList (sign ++ Nat.toDigits 10 n), rest) := by
  obtain hzero | ⟨d, ds, hds, hd, hminus⟩ := toDigits_eq_zero_or n
  · rw [hzero]
    rcases hsign with rfl | rfl
    all_goals
      cases rest with
      | nil => rfl
      | cons c rest =>
        obtain ⟨-, hdot, he, hE⟩ := hrest c rfl
        simp [numberLiteral?, hdot, he, hE]
  · have hdigits := takeWhile_isDigit_append (digits_toDigits n) hrest
    have hwhole : digits1? (Nat.toDigits 10 n ++ rest) = some (Nat.toDigits 10 n, rest) := by
      rw [digits1?, hdigits.1, hdigits.2, hds]
    rw [hds] at hwhole ⊢
    rcases hsign with rfl | rfl
    all_goals
      cases rest with
      | nil =>
        rw [append_nil] at hwhole ⊢
        simp [numberLiteral?, hminus, hd, hwhole]
      | cons c rest =>
        obtain ⟨-, hdot, he, hE⟩ := hrest c rfl
        rw [cons_append] at hwhole
        simp [numberLiteral?, hminus, hd, hwhole, hdot, he, hE]

lemma numberLiteral?_toString (n : Int) {rest : List Char} (hrest : EndsNumber rest) :
    numberLiteral? ((toString n).toList ++ rest) = some (toString n, rest) := by
  have hsign : (if n < 0 then ['-'] else []) = [] ∨ (if n < 0 then ['-'] else []) = ['-'] := by
    by_cases hn : n < 0
    · exact .inr (if_pos hn)
    · exact .inl (if_neg hn)
  have hread := numberLiteral?_digits hsign n.natAbs hrest
  rwa [← toList_toString_int, String.ofList_toList] at hread

lemma digits?_toDigits : digits? (Nat.toDigits 10 n) = some n := by
  have hempty : (Nat.toDigits 10 n).isEmpty = false := by
    rw [isEmpty_eq_false_iff]
    exact Nat.toDigits_ne_nil
  rw [digits?, if_pos, Nat.ofDigitChars_ten_toDigits]
  rw [hempty, Bool.not_false, Bool.true_and, List.all_eq_true]
  exact digits_toDigits n

/-- The value of a literal is the number that it was written from. -/
@[simp]
lemma int?_int (n : Int) : (Json.int n).int? = some n := by
  rw [Json.int, int?, toList_toString_int]
  by_cases hn : n < 0
  · rw [if_pos hn, singleton_append]
    change (digits? (Nat.toDigits 10 n.natAbs)).map (fun (m : Nat) => -(m : Int)) = some n
    rw [digits?_toDigits, map_some, some_inj]
    omega
  · rw [if_neg hn, nil_append]
    have hminus : ∀ ds, Nat.toDigits 10 n.natAbs ≠ '-' :: ds := by
      intro ds h
      have hdigit := digits_toDigits n.natAbs '-' (h ▸ mem_cons_self)
      exact absurd hdigit (by decide)
    split
    · next ds h => exact absurd h (hminus ds)
    · rw [digits?_toDigits, map_some, some_inj, Int.ofNat_eq_natCast]
      omega

/-! ### Layouts -/

open List Text

variable {c : Char} {j : Json} {ws : List Char} {depth : Nat}

/-! ### Clean values -/

mutual

/-- Whether a value can be read back: its texts are valid, and its numbers are whole. -/
def IsClean : Json → Prop
  | .null => True
  | .bool _ => True
  | .number literal => ∃ n : Int, literal = toString n
  | .string s => Text.IsValid s
  | .array xs => AreClean xs
  | .object fs => HaveClean fs

def AreClean : List Json → Prop
  | [] => True
  | x :: xs => x.IsClean ∧ AreClean xs

def HaveClean : List (String × Json) → Prop
  | [] => True
  | (k, v) :: fs => Text.IsValid k ∧ v.IsClean ∧ HaveClean fs

end

/-! ### Layout -/

/-- The blanks of a layout: those before an item, a field or a closing bracket at a depth, and those
behind a colon. -/
structure Spacing where
  line : Nat → List Char
  colon : List Char
  isSpace_line : ∀ depth, ∀ c ∈ line depth, isSpace c = true
  isSpace_colon : ∀ c ∈ colon, isSpace c = true

def lineStart (depth : Nat) : List Char := '\n' :: (List.replicate depth "  ").flatMap String.toList

lemma isSpace_of_mem_lineStart (h : c ∈ lineStart depth) : isSpace c := by
  rcases mem_cons.1 h with rfl | h
  · decide
  · obtain ⟨s, hs, hc⟩ := mem_flatMap.1 h
    obtain rfl := eq_of_mem_replicate hs
    have hblank : "  ".toList.all isSpace := by decide
    exact all_eq_true.1 hblank c hc

/-- Every item and field on a line of its own. -/
def Spacing.indented : Spacing where
  line := lineStart
  colon := [' ']
  isSpace_line _ _ := isSpace_of_mem_lineStart
  isSpace_colon := all_eq_true.1 (by decide)

/-- Everything on one line without blanks. -/
def Spacing.dense : Spacing where
  line _ := []
  colon := []
  isSpace_line _ := forall_mem_nil _
  isSpace_colon := forall_mem_nil _

mutual

def layout (sp : Spacing) (depth : Nat) : Json → List Char
  | .array (x :: xs) =>
    '[' :: (sp.line (depth + 1) ++ layoutItems sp (depth + 1) (x :: xs) ++ sp.line depth ++ [']'])
  | .object (f :: fs) =>
    '\x7b' :: (sp.line (depth + 1) ++ layoutFields sp (depth + 1) (f :: fs) ++ sp.line depth ++ ['\x7d'])
  | .null => "null".toList
  | .bool true => "true".toList
  | .bool false => "false".toList
  | .number literal => literal.toList
  | .string s => quotedChars s
  | .array [] => "[]".toList
  | .object [] => "\x7b\x7d".toList

def layoutItems (sp : Spacing) (depth : Nat) : List Json → List Char
  | [] => []
  | [x] => layout sp depth x
  | x :: y :: ys => layout sp depth x ++ (',' :: sp.line depth ++ layoutItems sp depth (y :: ys))

def layoutFields (sp : Spacing) (depth : Nat) : List (String × Json) → List Char
  | [] => []
  | [(k, v)] => quotedChars k ++ (':' :: (sp.colon ++ layout sp depth v))
  | (k, v) :: f :: fs =>
    quotedChars k ++ (':' :: (sp.colon ++ layout sp depth v)) ++ (',' :: sp.line depth ++ layoutFields sp depth (f :: fs))

end

/-! ### The two layouts that are written -/

lemma newline_eq (depth : Nat) : newline depth = ofChars (lineStart depth) := by
  have hchars : (newline depth).toList = lineStart depth := by
    rw [newline, lineStart, String.toList_append, String.toList_join]
    rfl
  have hascii : IsAscii (newline depth) := by
    intro c hc
    have hspace := isSpace_of_mem_lineStart (hchars ▸ hc)
    simp only [isSpace, Bool.or_eq_true, beq_iff_eq] at hspace
    rcases hspace with ((rfl | rfl) | rfl) | rfl <;> decide
  rw [← hchars, ofChars_of_ascii hascii]

lemma ofChars_container (opened closed : Char) (before inner after : List Char) :
    ofChars (opened :: (before ++ inner ++ after ++ [closed])) =
      ofChars [opened] ++ ofChars before ++ ofChars inner ++ ofChars after ++ ofChars [closed] := by
  rw [ofChars_cons, ofChars_append, ofChars_append, ofChars_append]
  simp only [String.append_assoc]

lemma ofChars_field (k : String) (colon value : List Char) : ofChars (quotedChars k ++ (':' :: (colon ++ value))) =
      quotedString k ++ ofChars (':' :: colon) ++ ofChars value := by
  rw [ofChars_append, quotedString_eq, ← cons_append, ofChars_append, String.append_assoc]

lemma ofChars_comma (first line rest : List Char) : ofChars (first ++ (',' :: line ++ rest)) =
      ofChars first ++ ("," ++ ofChars line) ++ ofChars rest := by
  have hcomma : ofChars [','] = "," := rfl
  rw [ofChars_append, ofChars_append, ofChars_cons ',', hcomma]
  simp only [String.append_assoc]

lemma intercalate_items (sp : Spacing) (depth : Nat) (xs : List Json) :
    String.intercalate ("," ++ ofChars (sp.line depth)) (xs.map fun x => ofChars (layout sp depth x)) =
      ofChars (layoutItems sp depth xs) := by
  induction xs with
  | nil => rfl
  | cons x xs ih =>
    cases xs with
    | nil => exact String.intercalate_singleton
    | cons y ys =>
      rw [map_cons] at ih ⊢
      rw [map_cons, String.intercalate_cons_cons, ih, layoutItems, ofChars_comma]

lemma intercalate_fields (sp : Spacing) (depth : Nat) (fs : List (String × Json)) :
    String.intercalate ("," ++ ofChars (sp.line depth))
        (fs.map fun f => quotedString f.1 ++ ofChars (':' :: sp.colon) ++ ofChars (layout sp depth f.2)) =
      ofChars (layoutFields sp depth fs) := by
  induction fs with
  | nil => rfl
  | cons f fs ih =>
    cases fs with
    | nil => exact String.intercalate_singleton.trans (ofChars_field ..).symm
    | cons g gs =>
      rw [map_cons] at ih ⊢
      rw [map_cons, String.intercalate_cons_cons, ih, layoutFields, ofChars_comma, ofChars_field]

mutual

lemma pretty_eq (depth : Nat) : ∀ j : Json, j.IsClean → j.pretty depth = ofChars (layout .indented depth j)
  | .null, _ | .bool true, _ | .bool false, _ | .array [], _ | .object [], _ => rfl
  | .number literal, h => by
    obtain ⟨n, rfl⟩ := h
    rw [pretty, layout, ofChars_of_ascii (isAscii_toString_int n)]
  | .string s, _ => by rw [pretty, layout, quotedString_eq]
  | .array (x :: xs), h => by
    rw [pretty, layout, ofChars_container, ← intercalate_items, prettyItems_eq (depth + 1) (x :: xs) h, newline_eq,
      newline_eq]
    rfl
  | .object (f :: fs), h => by
    rw [pretty, layout, ofChars_container, ← intercalate_fields, prettyFields_eq (depth + 1) (f :: fs) h, newline_eq,
      newline_eq]
    rfl

lemma prettyItems_eq (depth : Nat) : ∀ xs : List Json, AreClean xs →
    prettyItems depth xs = xs.map fun x => ofChars (layout .indented depth x)
  | [], _ => rfl
  | x :: xs, h => by rw [prettyItems, pretty_eq depth x h.1, prettyItems_eq depth xs h.2, map_cons]

lemma prettyFields_eq (depth : Nat) : ∀ fs : List (String × Json), HaveClean fs → prettyFields depth fs =
    fs.map fun f => quotedString f.1 ++ ": " ++ ofChars (layout .indented depth f.2)
  | [], _ => rfl
  | (k, v) :: fs, h => by rw [prettyFields, pretty_eq depth v h.2.1, prettyFields_eq depth fs h.2.2, map_cons]

end

mutual

lemma compress_eq (depth : Nat) : ∀ j : Json, j.IsClean → j.compress = ofChars (layout .dense depth j)
  | .null, _ | .bool true, _ | .bool false, _ | .array [], _ | .object [], _ => rfl
  | .number literal, h => by
    obtain ⟨n, rfl⟩ := h
    rw [compress, layout, ofChars_of_ascii (isAscii_toString_int n)]
  | .string s, _ => by rw [compress, layout, quotedString_eq]
  | .array (x :: xs), h => by
    rw [compress, layout, ofChars_container, ← intercalate_items, compressItems_eq (depth + 1) (x :: xs) h]
    simp only [Spacing.dense, ofChars_nil, String.append_empty]
    rfl
  | .object (f :: fs), h => by
    rw [compress, layout, ofChars_container, ← intercalate_fields, compressFields_eq (depth + 1) (f :: fs) h]
    simp only [Spacing.dense, ofChars_nil, String.append_empty]
    rfl

lemma compressItems_eq (depth : Nat) : ∀ xs : List Json, AreClean xs →
    compressItems xs = xs.map fun x => ofChars (layout .dense depth x)
  | [], _ => rfl
  | x :: xs, h => by rw [compressItems, compress_eq depth x h.1, compressItems_eq depth xs h.2, map_cons]

lemma compressFields_eq (depth : Nat) : ∀ fs : List (String × Json), HaveClean fs →
    compressFields fs = fs.map fun f => quotedString f.1 ++ ":" ++ ofChars (layout .dense depth f.2)
  | [], _ => rfl
  | (k, v) :: fs, h => by rw [compressFields, compress_eq depth v h.2.1, compressFields_eq depth fs h.2.2, map_cons]

end

/-! ### Blanks -/

lemma skipSpace_append (hws : ∀ c ∈ ws, isSpace c) (cs : List Char) :
    skipSpace (ws ++ cs) = skipSpace cs := dropWhile_append_of_pos hws

lemma skipSpace_cons (hc : isSpace c = false) (cs : List Char) : skipSpace (c :: cs) = c :: cs :=
  dropWhile_cons_of_neg (by simp [hc])

section Blanks

variable {ws : List Char} (hws : ∀ c ∈ ws, isSpace c = true) (fuel depth : Nat) (cs : List Char)
include hws

lemma value_append_space : value fuel depth (ws ++ cs) = value fuel depth cs := by
  cases fuel with
  | zero => rw [value, value]
  | succ n => rw [value, value, skipSpace_append hws]

lemma itemList_append_space (acc : List Json) : itemList fuel depth acc (ws ++ cs) = itemList fuel depth acc cs := by
  cases fuel with
  | zero => rw [itemList, itemList]
  | succ n => rw [itemList, itemList, value_append_space hws]

lemma fieldList_append_space (acc : List (String × Json)) :
    fieldList fuel depth acc (ws ++ cs) = fieldList fuel depth acc cs := by
  cases fuel with
  | zero => rw [fieldList, fieldList]
  | succ n => rw [fieldList, fieldList, skipSpace_append hws]

end Blanks

/-! ### Reading -/

lemma isSpace_of_startsNumber (hc : c.isDigit ∨ c = '-') : isSpace c = false := by
  rcases hc with hc | rfl
  · simp only [isSpace, Bool.or_eq_false_iff, beq_eq_false_iff_ne]
    refine ⟨⟨⟨?_, ?_⟩, ?_⟩, ?_⟩ <;> rintro rfl <;> exact absurd hc (by decide)
  · decide

lemma value_number {cs rest : List Char} {literal : String} (hc : c.isDigit ∨ c = '-')
    (hread : numberLiteral? (c :: cs) = some (literal, rest)) (n depth : Nat) :
    value (n + 1) depth (c :: cs) = some (.number literal, rest) := by
  have hother : ∀ d ∈ ['n', 't', 'f', '"', '[', '\x7b'], c ≠ d := by
    rintro d hd rfl
    have hnone : ['n', 't', 'f', '"', '[', '\x7b'].all (fun d => !(d.isDigit || d == '-')) := by decide
    have hnot := all_eq_true.1 hnone c hd
    simp only [Bool.not_eq_true', Bool.or_eq_false_iff, beq_eq_false_iff_ne] at hnot
    exact hc.elim (Bool.eq_false_iff.1 hnot.1) hnot.2
  rw [value, skipSpace_cons (isSpace_of_startsNumber hc)]
  split
  iterate 6
    next h => exact absurd (List.cons.inj h).1 (hother _ (by decide))
  rw [hread, Option.map_some]

lemma value_bracket (hdepth : depth ≠ 0) (n : Nat) (cs : List Char) : value (n + 1) depth ('[' :: cs) =
      match skipSpace cs with
      | ']' :: rest => some (.array [], rest)
      | rest => (itemList n (depth - 1) [] rest).map fun (xs, r) => (.array xs, r) := by
  rw [value, skipSpace_cons (by decide)]
  exact if_neg hdepth

lemma value_brace (hdepth : depth ≠ 0) (n : Nat) (cs : List Char) : value (n + 1) depth ('\x7b' :: cs) =
      match skipSpace cs with
      | '\x7d' :: rest => some (.object [], rest)
      | rest => (fieldList n (depth - 1) [] rest).map fun (fs, r) => (.object fs, r) := by
  rw [value, skipSpace_cons (by decide)]
  exact if_neg hdepth

lemma value_string {s : String} (hs : IsValid s) (n depth : Nat) (rest : List Char) :
    value (n + 1) depth (quotedChars s ++ rest) = some (.string s, rest) := by
  have hread := stringBody_quotedChars hs rest
  rw [quotedChars, cons_append] at hread ⊢
  rw [value, skipSpace_cons (by decide)]
  exact congrArg (Option.map fun p : String × List Char => (Json.string p.1, p.2)) hread

lemma exists_toString_int_eq_cons (n : Int) : ∃ c cs, (toString n).toList = c :: cs ∧ (c.isDigit ∨ c = '-') := by
  have hne : (toString n).toList ≠ [] := by simp only [toList_toString_int, ne_eq, append_eq_nil_iff,
    Nat.toDigits_ne_nil, and_false, not_false_eq_true]
  obtain ⟨c, cs, hcs⟩ := exists_cons_of_ne_nil hne
  exact ⟨c, cs, hcs, isDigit_or_of_mem_toString (hcs ▸ mem_cons_self)⟩

lemma exists_layout_eq_cons (sp : Spacing) (depth : Nat) (h : j.IsClean) :
    ∃ c cs, layout sp depth j = c :: cs ∧ isSpace c = false ∧ c ≠ ']' := by
  cases j with
  | null => exact ⟨_, _, rfl, by decide, by decide⟩
  | bool b => cases b <;> exact ⟨_, _, rfl, by decide, by decide⟩
  | number literal =>
    obtain ⟨n, rfl⟩ := h
    obtain ⟨c, cs, hcs, hc⟩ := exists_toString_int_eq_cons n
    refine ⟨c, cs, by rw [layout, hcs], ?_, ?_⟩
    · exact isSpace_of_startsNumber hc
    · rintro rfl
      exact absurd hc (by decide)
  | string s => exact ⟨_, _, by rw [layout, quotedChars], by decide, by decide⟩
  | array xs =>
    obtain ⟨cs, hcs⟩ : ∃ cs, layout sp depth (.array xs) = '[' :: cs := by
      cases xs with
      | nil => exact ⟨_, rfl⟩
      | cons x xs => exact ⟨_, by rw [layout]⟩
    exact ⟨_, cs, hcs, by decide, by decide⟩
  | object fs =>
    obtain ⟨cs, hcs⟩ : ∃ cs, layout sp depth (.object fs) = '\x7b' :: cs := by
      cases fs with
      | nil => exact ⟨_, rfl⟩
      | cons f fs => exact ⟨_, by rw [layout]⟩
    exact ⟨_, cs, hcs, by decide, by decide⟩

lemma exists_fuel_eq_succ {sp : Spacing} {k fuel : Nat} (h : j.IsClean) (hfuel : 2 * (layout sp k j).length ≤ fuel) :
    ∃ n, fuel = n + 1 := by
  obtain ⟨c, cs, hcs, -⟩ := exists_layout_eq_cons sp k h
  rw [hcs, length_cons] at hfuel
  exact Nat.exists_eq_succ_of_ne_zero (by omega)

lemma endsNumber_append (hws : ∀ c ∈ ws, isSpace c) (hc : c = ',' ∨ c = ']' ∨ c = '\x7d')
    (rest : List Char) : EndsNumber (ws ++ c :: rest) := by
  intro d hd
  cases ws with
  | nil =>
    obtain rfl : c = d := by simpa using hd
    rcases hc with rfl | rfl | rfl <;> decide
  | cons w ws =>
    obtain rfl : w = d := by simpa using hd
    have hspace := hws w mem_cons_self
    simp only [isSpace, Bool.or_eq_true, beq_iff_eq] at hspace
    rcases hspace with ((rfl | rfl) | rfl) | rfl <;> decide

lemma fieldList_quoted {name : String} (hname : IsValid name) (hws : ∀ c ∈ ws, isSpace c) {n : Nat}
    {cs rest : List Char} {v : Json} (hread : value n depth cs = some (v, rest)) (acc : List (String × Json))
    (more : List Char) :
    (skipSpace rest = ',' :: more → fieldList (n + 1) depth acc (quotedChars name ++ ':' :: (ws ++ cs)) =
      fieldList n depth ((name, v) :: acc) more) ∧
    (skipSpace rest = '\x7d' :: more → fieldList (n + 1) depth acc (quotedChars name ++ ':' :: (ws ++ cs)) =
      some (((name, v) :: acc).reverse, more)) := by
  have hkey := stringBody_quotedChars hname (':' :: (ws ++ cs))
  have hvalue : value n depth (ws ++ cs) = some (v, rest) := (value_append_space hws n depth cs).trans hread
  rw [quotedChars, cons_append] at hkey ⊢
  rw [tail_cons] at hkey
  have hcolon : skipSpace (':' :: (ws ++ cs)) = ':' :: (ws ++ cs) := skipSpace_cons (by decide) _
  rw [fieldList, skipSpace_cons (by decide)]
  constructor <;> intro hrest <;> simp only [hkey, hcolon, hvalue, hrest]

-- The recursion is that of the layout: a value within its container, and the items or fields behind the first one.
mutual

lemma value_layout (sp : Spacing) (k : Nat) : ∀ (j : Json) (fuel depth : Nat) (rest : List Char), j.IsClean →
    j.nesting ≤ depth → 2 * (layout sp k j).length ≤ fuel → EndsNumber rest →
    value fuel depth (layout sp k j ++ rest) = some (j, rest)
  | j, fuel, depth, rest, h, hdepth, hfuel, hrest => by
    obtain ⟨n, rfl⟩ := exists_fuel_eq_succ h hfuel
    cases j with
    | null => rfl
    | bool b => cases b <;> rfl
    | number literal =>
      obtain ⟨i, rfl⟩ := h
      obtain ⟨c, cs, hcs, hc⟩ := exists_toString_int_eq_cons i
      have hread := numberLiteral?_toString i hrest
      rw [hcs, cons_append] at hread
      rw [layout, hcs, cons_append, value_number hc hread]
    | string s => rw [layout, value_string h]
    | array xs =>
      rw [nesting] at hdepth
      have hne : depth ≠ 0 := by omega
      cases xs with
      | nil => exact value_bracket hne n (']' :: rest)
      | cons x xs =>
        rw [layout] at hfuel ⊢
        simp only [length_cons, length_append] at hfuel
        have hitems := itemList_layout sp (k + 1) (x :: xs) n (depth - 1) [] rest (cons_ne_nil _ _) h (by omega)
          (by omega) k
        -- the first item stands behind blanks and does not close the array
        obtain ⟨c, cs, hcs, hspace, hclose⟩ : ∃ c cs, layoutItems sp (k + 1) (x :: xs) ++ (sp.line k ++ ']' :: rest) =
            c :: cs ∧ isSpace c = false ∧ c ≠ ']' := by
          obtain ⟨c, cs, hcs, hc⟩ := exists_layout_eq_cons sp (k + 1) h.1
          cases xs with
          | nil => exact ⟨c, _, by rw [layoutItems, hcs, cons_append], hc⟩
          | cons y ys => exact ⟨c, _, by rw [layoutItems, hcs, cons_append, cons_append], hc⟩
        simp only [cons_append, append_assoc, nil_append]
        rw [value_bracket hne, skipSpace_append (sp.isSpace_line _), hcs, skipSpace_cons hspace]
        split
        · next heq => exact absurd (List.cons.inj heq).1 hclose
        · rw [← hcs, hitems]
          rfl
    | object fs =>
      rw [nesting] at hdepth
      have hne : depth ≠ 0 := by omega
      cases fs with
      | nil => exact value_brace hne n ('\x7d' :: rest)
      | cons f fs =>
        rw [layout] at hfuel ⊢
        simp only [length_cons, length_append] at hfuel
        have hfields := fieldList_layout sp (k + 1) (f :: fs) n (depth - 1) [] rest (cons_ne_nil _ _) h (by omega)
          (by omega) k
        obtain ⟨cs, hcs⟩ : ∃ cs, layoutFields sp (k + 1) (f :: fs) ++ (sp.line k ++ '\x7d' :: rest) = '"' :: cs := by
          cases fs with
          | nil => exact ⟨_, by rw [layoutFields, quotedChars, cons_append, cons_append]⟩
          | cons g gs =>
            exact ⟨_, by rw [layoutFields, quotedChars, cons_append, cons_append, cons_append]⟩
        simp only [cons_append, append_assoc, nil_append]
        rw [value_brace hne, skipSpace_append (sp.isSpace_line _), hcs, skipSpace_cons (by decide)]
        rw [hcs] at hfields
        exact congrArg (Option.map fun p : List (String × Json) × List Char => (Json.object p.1, p.2)) hfields

lemma itemList_layout (sp : Spacing) (k : Nat) : ∀ (xs : List Json) (fuel depth : Nat) (acc : List Json)
    (rest : List Char), xs ≠ [] → AreClean xs → nestingOfItems xs ≤ depth →
    2 * (layoutItems sp k xs).length + 1 ≤ fuel → ∀ m,
    itemList fuel depth acc (layoutItems sp k xs ++ (sp.line m ++ ']' :: rest)) = some (acc.reverse ++ xs, rest)
  | [], _, _, _, _, h, _, _, _ => absurd rfl h
  | [x], fuel, depth, acc, rest, _, h, hdepth, hfuel => by
    intro m
    obtain ⟨n, rfl⟩ : ∃ n, fuel = n + 1 := Nat.exists_eq_succ_of_ne_zero (by omega)
    rw [layoutItems] at hfuel
    have hread := value_layout sp k x n depth (sp.line m ++ ']' :: rest) h.1
      (by simpa [nestingOfItems] using hdepth) (by omega) (endsNumber_append (sp.isSpace_line m) (.inr (.inl rfl)) _)
    rw [itemList, layoutItems, hread]
    dsimp only
    rw [skipSpace_append (sp.isSpace_line m)]
    change some _ = _
    rw [reverse_cons]
  | x :: y :: ys, fuel, depth, acc, rest, _, h, hdepth, hfuel => by
    intro m
    obtain ⟨n, rfl⟩ : ∃ n, fuel = n + 1 := Nat.exists_eq_succ_of_ne_zero (by omega)
    rw [layoutItems] at hfuel
    simp only [length_append, length_cons, cons_append] at hfuel
    rw [nestingOfItems, Nat.max_le] at hdepth
    have hread := value_layout sp k x n depth
      (',' :: (sp.line k ++ (layoutItems sp k (y :: ys) ++ (sp.line m ++ ']' :: rest)))) h.1 hdepth.1 (by omega)
      (endsNumber_append (forall_mem_nil _) (.inl rfl) _)
    have hrest := itemList_layout sp k (y :: ys) n depth (x :: acc) rest (cons_ne_nil _ _) h.2 hdepth.2 (by omega) m
    rw [layoutItems, append_assoc, cons_append, cons_append, append_assoc, itemList, hread]
    dsimp only
    rw [skipSpace_cons (by decide)]
    change itemList n depth (x :: acc) _ = _
    rw [itemList_append_space (sp.isSpace_line k), hrest, reverse_cons, append_assoc]
    rfl

lemma fieldList_layout (sp : Spacing) (k : Nat) : ∀ (fs : List (String × Json)) (fuel depth : Nat)
    (acc : List (String × Json)) (rest : List Char), fs ≠ [] → HaveClean fs → nestingOfFields fs ≤ depth →
    2 * (layoutFields sp k fs).length + 1 ≤ fuel → ∀ m,
    fieldList fuel depth acc (layoutFields sp k fs ++ (sp.line m ++ '\x7d' :: rest)) = some (acc.reverse ++ fs, rest)
  | [], _, _, _, _, h, _, _, _ => absurd rfl h
  | [(name, v)], fuel, depth, acc, rest, _, h, hdepth, hfuel => by
    intro m
    obtain ⟨n, rfl⟩ : ∃ n, fuel = n + 1 := Nat.exists_eq_succ_of_ne_zero (by omega)
    rw [layoutFields] at hfuel
    simp only [length_append, length_cons] at hfuel
    have hread := value_layout sp k v n depth (sp.line m ++ '\x7d' :: rest) h.2.1
      (by simpa [nestingOfFields] using hdepth) (by omega)
      (endsNumber_append (sp.isSpace_line m) (.inr (.inr rfl)) _)
    rw [layoutFields]
    simp only [append_assoc, cons_append]
    have hclose : skipSpace (sp.line m ++ '\x7d' :: rest) = '\x7d' :: rest :=
      (skipSpace_append (sp.isSpace_line m) _).trans (skipSpace_cons (by decide) rest)
    rw [(fieldList_quoted h.1 sp.isSpace_colon hread acc rest).2 hclose, reverse_cons]
  | (name, v) :: f :: fs, fuel, depth, acc, rest, _, h, hdepth, hfuel => by
    intro m
    obtain ⟨n, rfl⟩ : ∃ n, fuel = n + 1 := Nat.exists_eq_succ_of_ne_zero (by omega)
    rw [layoutFields] at hfuel
    simp only [length_append, length_cons, cons_append] at hfuel
    rw [nestingOfFields, Nat.max_le] at hdepth
    have hread := value_layout sp k v n depth
      (',' :: (sp.line k ++ (layoutFields sp k (f :: fs) ++ (sp.line m ++ '\x7d' :: rest)))) h.2.1 hdepth.1 (by omega)
      (endsNumber_append (forall_mem_nil _) (.inl rfl) _)
    have hrest := fieldList_layout sp k (f :: fs) n depth ((name, v) :: acc) rest (cons_ne_nil _ _) h.2.2 hdepth.2
      (by omega) m
    rw [layoutFields]
    simp only [append_assoc, cons_append]
    rw [(fieldList_quoted h.1 sp.isSpace_colon hread acc _).1 (skipSpace_cons (by decide) _),
      fieldList_append_space (sp.isSpace_line k), hrest, reverse_cons, append_assoc]
    rfl

end

lemma parse?_layout {sp : Spacing} (h : j.IsClean) (hdepth : j.nesting ≤ maxDepth) (hws : ∀ c ∈ ws, isSpace c)
    (hend : EndsNumber ws) : parse? (ofChars (layout sp 0 j ++ ws)) = some j := by
  have hread := value_layout sp 0 j (2 * (layout sp 0 j ++ ws).length + 2) maxDepth ws h hdepth
    (by rw [length_append]; omega) hend
  have hrest : skipSpace ws = [] := by
    rw [← append_nil ws, skipSpace_append hws]
    rfl
  rw [parse?, toList_shown_ofChars, parsePrefix?, hread]
  show (if (skipSpace ws).isEmpty = true then some j else none) = some j
  rw [hrest]
  rfl

lemma parse?_pretty (h : j.IsClean) (hdepth : j.nesting ≤ maxDepth) : parse? (j.pretty 0 ++ "\n") = some j := by
  have htext : j.pretty 0 ++ "\n" = ofChars (layout .indented 0 j ++ ['\n']) := by
    rw [pretty_eq 0 j h, ofChars_append]
    rfl
  rw [htext]
  exact parse?_layout h hdepth (all_eq_true.1 (by decide)) (by rintro c ⟨⟩; decide)

lemma parse?_compress (h : j.IsClean) (hdepth : j.nesting ≤ maxDepth) : parse? j.compress = some j := by
  rw [compress_eq 0 j h, ← append_nil (layout _ 0 j)]
  exact parse?_layout h hdepth (nofun) nofun

end BytecodeAudit.Json
