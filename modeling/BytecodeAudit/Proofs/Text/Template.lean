import BytecodeAudit.Proofs.Json.RoundTrip
import BytecodeAudit.Text.Template

/-!
# Reading templates

A template that is read without fault where no argument is known to be an integer is read in the
same way whatever the arguments are, as long as there are as many of them (`segmentsFrom_cases`).
And a directive that is written by itself is read back (`segments_directive`), unless its verb goes
on with the directive: as an index, digits of a number, a precision or a flag.
-/

namespace BytecodeAudit.Text.Template

open List Option

def blanks (n : Nat) : Supply := ⟨n, fun _ => none⟩

/-! ### Numbers -/

lemma isDigit_iff {c : Char} : c.isDigit ↔ 48 ≤ c.toNat ∧ c.toNat ≤ 57 := by
  simp [Char.isDigit, UInt32.le_iff_toNat_le]

lemma ne_of_isDigit {c d : Char} (hc : c.isDigit) (hd : d.isDigit = false) : c ≠ d := by
  rintro rfl
  rw [hc] at hd
  cases hd

lemma of_number {acc : Option Nat} {cs : List Char} {n : Nat} (h : (number acc cs).1 = some n)
    (hacc : acc.getD 0 / 10 ≤ numberBound) : acc.getD 0 ≤ n ∧ n / 10 ≤ numberBound := by
  fun_induction number acc cs with
  | case1 acc =>
    obtain rfl : acc = some n := h
    exact ⟨Nat.le_refl _, hacc⟩
  | case2 acc c cs hdigit hbound => cases h
  | case3 acc c cs hdigit hbound ih =>
    have hvalue : c.toNat - '0'.toNat ≤ 9 := Nat.sub_le_iff_le_add.2 (isDigit_iff.1 hdigit).2
    have hnext := ih h (by simp only [getD_some]; omega)
    simp only [getD_some] at hnext
    omega
  | case4 acc c cs hdigit =>
    obtain rfl : acc = some n := h
    exact ⟨Nat.le_refl _, hacc⟩

lemma pos_of_number {cs : List Char} {n : Nat} (h : (number none cs).1 = some n) (hcs : cs.head? ≠ some '0') :
    0 < n := by
  cases cs with
  | nil => cases h
  | cons c cs =>
    rw [number] at h
    split at h
    · rename_i hdigit
      have hc := isDigit_iff.1 hdigit
      have hne : c.toNat ≠ 48 := fun heq => hcs (congrArg some (Char.toNat_inj.1 heq))
      have hvalue : c.toNat - '0'.toNat = c.toNat - 48 := rfl
      simp only [getD_none, Nat.zero_mul, Nat.zero_add, hvalue] at h
      have hle : c.toNat - 48 ≤ n := (of_number h (by simp only [getD_some, numberBound]; omega)).1
      omega
    · cases h

lemma number_of_head {cs : List Char} (h : ∀ c ∈ cs.head?, c.isDigit = false) (acc : Option Nat) :
    number acc cs = (acc, cs) := by
  cases cs with
  | nil => rfl
  | cons c cs => simp [number, h c rfl]

lemma number_digits {n : Nat} (hn : n / 10 ≤ numberBound) {rest : List Char}
    (hrest : ∀ c ∈ rest.head?, c.isDigit = false) : number none ((toString n).toList ++ rest) = (some n, rest) := by
  have hdigit (d : Nat) (hd : d < 10) :
      (Nat.digitChar d).isDigit = true ∧ (Nat.digitChar d).toNat - '0'.toNat = d := by decide +revert
  have hread (n : Nat) : n / 10 ≤ numberBound →
      ∀ rest, number none (Nat.toDigits 10 n ++ rest) = number (some n) rest := by
    induction n using Nat.strongRecOn with
    | ind n ih =>
      intro hn rest
      rcases Nat.lt_or_ge n 10 with hlt | hge
      · obtain ⟨hd, hvalue⟩ := hdigit n hlt
        rw [Nat.toDigits_of_lt_base hlt, singleton_append, number, if_pos hd, hvalue]
        simp [numberBound]
      · obtain ⟨hd, hvalue⟩ := hdigit (n % 10) (Nat.mod_lt _ (by decide))
        rw [Nat.toDigits_of_base_le (by decide) hge, append_assoc, singleton_append,
          ih (n / 10) (by omega) (by omega), number, if_pos hd, hvalue, if_neg (by simpa using hn)]
        simp only [getD_some]
        congr 2
        omega
  rw [show (toString n).toList = Nat.toDigits 10 n from Nat.toList_repr, hread n hn, number_of_head hrest]

/-! ### What a directive reads -/

/-- A layout as it is read, before its verb is known. -/
structure Layout.IsRaw (l : Layout) : Prop where
  literal : l.literal = false
  detailed : l.detailed = false
  width : ∀ w, l.width = some w → 0 < w ∧ w / 10 ≤ numberBound
  precision : ∀ p, l.precision = some p → p / 10 ≤ numberBound

/-- A segment without fault: a character, or an argument with its layout as it is read. -/
inductive Segment.IsRead : Segment → Prop
  | text (c : Char) : IsRead (.text [c])
  | argument (i : Nat) {l : Layout} (hl : l.IsRaw) {verb : Char} (hverb : verb ≠ '%') :
      IsRead (.argument i (l.forVerb verb) verb)

def flagChars : List Char := ['#', '0', '+', '-', ' ']

lemma of_flags {l : Layout} (hl : l.IsRaw) (cs : List Char) :
    (flags l cs).1.IsRaw ∧ ∀ c ∈ (flags l cs).2.head?, c ∉ flagChars := by
  fun_induction flags l cs with
  | case1 l cs ih | case2 l cs ih | case3 l cs ih | case4 l cs ih | case5 l cs ih => exact ih { hl with }
  | case6 l cs h₁ h₂ h₃ h₄ h₅ =>
    refine ⟨hl, fun c hc => ?_⟩
    obtain ⟨rest, rfl⟩ : ∃ rest, cs = c :: rest := ⟨cs.tail, by cases cs <;> simp_all⟩
    simp_all [flagChars]

variable {n : Nat} {l : Layout} {c : Cursor}

lemma Cursor.of_index (h : (c.index n).goodIndex) :
    c.goodIndex = true ∧ ((c.index n).afterIndex = false → (c.index n).rest = c.rest) := by
  unfold Cursor.index at h ⊢
  split at h
  · split at h
    · split at h <;> simp_all
    · simp_all
  · simp_all

lemma Cursor.of_width (h : ∀ f, .fault f ∉ (c.width (blanks n) l).1) :
    (c.width (blanks n) l).1 = [] ∧ (∀ f, c.width ⟨n, f⟩ l = c.width (blanks n) l) ∧
      ((c.width (blanks n) l).2.2.goodIndex → c.goodIndex ∧
        (l.IsRaw → (c.afterIndex = false → c.rest.head? ≠ some '0') → (c.width (blanks n) l).2.1.IsRaw)) := by
  unfold Cursor.width at h ⊢
  split at h
  · simp [integerArgument, blanks] at h
  · refine ⟨by split <;> rfl, fun f => rfl, fun hgood => ?_⟩
    split at hgood
    · rename_i w rest hw
      simp only [Bool.and_eq_true, Bool.not_eq_true'] at hgood
      refine ⟨hgood.1, fun hl hzero => { hl with width := fun w' hw' => ?_ }⟩
      cases hw'
      have hw := congrArg Prod.fst hw
      exact ⟨pos_of_number hw (hzero hgood.2), (of_number hw (Nat.zero_le _)).2⟩
    · exact ⟨hgood, fun hl _ => hl⟩

lemma Cursor.of_precision (h : ∀ f, .fault f ∉ (c.precision (blanks n) l).1) :
    (c.precision (blanks n) l).1 = [] ∧ (∀ f, c.precision ⟨n, f⟩ l = c.precision (blanks n) l) ∧
      ((c.precision (blanks n) l).2.2.goodIndex → c.goodIndex ∧ (l.IsRaw → (c.precision (blanks n) l).2.1.IsRaw)) := by
  unfold Cursor.precision at h ⊢
  split at h
  · rename_i cs hcs
    have hindex := Cursor.of_index (n := n) (c := { c with rest := cs, goodIndex := c.goodIndex && !c.afterIndex })
    simp only [blanks] at h hindex ⊢
    generalize Cursor.index n { c with rest := cs, goodIndex := c.goodIndex && !c.afterIndex } = d at h hindex ⊢
    split at h
    · simp [integerArgument] at h
    · refine ⟨rfl, fun f => rfl, fun hgood => ⟨?_, fun hl => { hl with precision := fun p hp => ?_ }⟩⟩
      · exact (Bool.and_eq_true_iff.1 (hindex hgood).1).1
      · cases hp
        rcases hn : (number none d.rest).1 with _ | p
        · exact Nat.zero_le _
        · exact (of_number hn (Nat.zero_le _)).2
  · exact ⟨rfl, fun f => rfl, fun hgood => ⟨hgood, id⟩⟩

/-- What the verb of a directive makes of the layout and position before it. -/
def Cursor.verb (n : Nat) (l : Layout) (c : Cursor) : Segment × Cursor :=
  match c.rest with
  | [] => (.fault .noVerb, c)
  | verb :: rest =>
    if verb == '%' then (.text ['%'], { c with rest })
    else if !c.goodIndex then (.fault (.badIndex verb), { c with rest })
    else if n ≤ c.next then (.fault (.missing verb), { c with rest })
    else (.argument c.next (l.forVerb verb) verb, { c with rest, next := c.next + 1 })

lemma directive_eq (s : Supply) (c : Cursor) : directive s c = let read := flags {} c.rest
      let w := (Cursor.index s.count { c with rest := read.2, goodIndex := true }).width s read.1
      let p := w.2.2.precision s w.2.1
      let last := (if p.2.2.afterIndex then p.2.2 else p.2.2.index s.count).verb s.count p.2.1
      (w.1 ++ p.1 ++ [last.1], last.2) := by
  unfold directive Cursor.verb
  generalize flags {} c.rest = read
  dsimp only
  generalize (Cursor.index s.count { c with rest := read.2, goodIndex := true }).width s read.1 = w
  generalize w.2.2.precision s w.2.1 = p
  generalize (if p.2.2.afterIndex then p.2.2 else p.2.2.index s.count) = c'
  rcases c' with ⟨_ | ⟨verb, rest⟩, next, afterIndex, goodIndex, reordered⟩
  · rfl
  · dsimp only
    split_ifs <;> rfl

lemma Cursor.goodIndex_of_ite (h : (if c.afterIndex then c else c.index n).goodIndex) : c.goodIndex = true := by
  split at h
  · exact h
  · exact (Cursor.of_index h).1

lemma Cursor.verb_cases (h : ∀ f, .fault f ≠ (c.verb n l).1) :
    (c.verb n l).1 = .text ['%'] ∨ c.goodIndex ∧ ∃ i verb, verb ≠ '%' ∧
      (c.verb n l).1 = .argument i (l.forVerb verb) verb := by
  unfold Cursor.verb at h ⊢
  split at h
  · exact absurd rfl (h _)
  · rename_i verb rest hrest
    by_cases hpercent : verb = '%'
    · simp [hpercent]
    · simp only [beq_iff_eq, hpercent, if_false, Bool.not_eq_true'] at h ⊢
      split_ifs at h ⊢ with hgood hnext
      · exact absurd rfl (h _)
      · exact absurd rfl (h _)
      · simp only [Bool.not_eq_false] at hgood
        exact .inr ⟨hgood, _, verb, hpercent, rfl⟩

/-- A directive without fault is read as one segment, which does not depend on the integers among
the arguments. -/
lemma directive_cases (h : ∀ f, .fault f ∉ (directive (blanks n) c).1) :
    (∀ f, directive ⟨n, f⟩ c = directive (blanks n) c) ∧ ∀ x ∈ (directive (blanks n) c).1, x.IsRead := by
  obtain ⟨hraw, hhead⟩ := of_flags (l := {}) ⟨rfl, rfl, nofun, nofun⟩ c.rest
  have hindex := Cursor.of_index (n := n) (c := { c with rest := (flags {} c.rest).2, goodIndex := true })
  simp only [directive_eq, show (blanks n).count = n from rfl] at h ⊢
  generalize flags {} c.rest = read at h hraw hhead hindex ⊢
  generalize Cursor.index n { c with rest := read.2, goodIndex := true } = c₁ at h hindex ⊢
  simp only [mem_append, not_or, mem_singleton] at h
  obtain ⟨hws, hwidth, hwidthRaw⟩ := Cursor.of_width fun f => (h f).1.1
  obtain ⟨hps, hprecision, hprecisionRaw⟩ := Cursor.of_precision fun f => (h f).1.2
  simp only [hwidth, hprecision, hws, hps, nil_append, implies_true, true_and, mem_singleton, forall_eq]
  rcases Cursor.verb_cases fun f => (h f).2 with hlast | ⟨hgood, i, verb, hverb, hlast⟩
  · rw [hlast]
    exact .text '%'
  · rw [hlast]
    -- where an index is bad there is no argument, so every index was good
    have hgood := Cursor.goodIndex_of_ite hgood
    obtain ⟨hgood, hprecisionRaw⟩ := hprecisionRaw hgood
    obtain ⟨hgood, hwidthRaw⟩ := hwidthRaw hgood
    refine .argument i (hprecisionRaw (hwidthRaw hraw fun hafter hzero => ?_)) hverb
    rw [(hindex hgood).2 hafter] at hzero
    exact hhead '0' hzero (by decide)

variable {s : Supply} {cs : List Char}

lemma segmentsFrom_nil (h : c.rest = []) :
    segmentsFrom s c = if !c.reordered && c.next < s.count then [.fault (.extra c.next)] else [] := by
  rw [segmentsFrom]
  split <;> simp_all

lemma segmentsFrom_percent (h : c.rest = '%' :: cs) : segmentsFrom s c =
      (directive s { c with rest := cs }).1 ++ segmentsFrom s (directive s { c with rest := cs }).2 := by
  rw [segmentsFrom]
  split <;> simp_all

lemma segmentsFrom_cons {ch : Char} (h : c.rest = ch :: cs) (hch : ch ≠ '%') :
    segmentsFrom s c = .text [ch] :: segmentsFrom s { c with rest := cs } := by
  rw [segmentsFrom]
  split <;> simp_all [hch.symm]

/-- A template that is read without fault on blanks is read in the same way on all arguments. -/
lemma segmentsFrom_cases (h : ∀ f, .fault f ∉ segmentsFrom (blanks n) c) :
    (∀ f, segmentsFrom ⟨n, f⟩ c = segmentsFrom (blanks n) c) ∧ ∀ x ∈ segmentsFrom (blanks n) c, x.IsRead := by
  fun_induction segmentsFrom (blanks n) c with
  | case1 c hrest hextra => exact absurd mem_cons_self (h _)
  | case2 c hrest hextra => exact ⟨fun f => (segmentsFrom_nil hrest).trans (if_neg hextra), nofun⟩
  | case3 c cs hrest d ih =>
    simp only [mem_append, not_or] at h
    obtain ⟨hd, hread⟩ := directive_cases fun f => (h f).1
    obtain ⟨hrests, hreads⟩ := ih fun f => (h f).2
    refine ⟨fun f => ?_, forall_mem_append.2 ⟨hread, hreads⟩⟩
    rw [segmentsFrom_percent hrest, hd, hrests]
  | case4 c ch cs hch hrest ih =>
    obtain ⟨hrests, hreads⟩ := ih fun f hf => h f (mem_cons_of_mem _ hf)
    refine ⟨fun f => ?_, forall_mem_cons.2 ⟨.text ch, hreads⟩⟩
    rw [segmentsFrom_cons hrest hch, hrests]

/-! ### Directives by themselves -/

/-- Whether the verb of a directive that is written by itself is read as a part of the directive
before the verb. -/
def Layout.Hides (l : Layout) (verb : Char) : Prop :=
  verb = '[' ∨ verb.isDigit = true ∨ l.precision = none ∧ (verb = '.' ∨ l.width = none ∧ verb ∈ '*' :: flagChars)

def flag (c : Char) (b : Bool) : List Char := if b then [c] else []

lemma flags_flag (l : Layout) (b : Bool) (cs : List Char) :
    flags l (flag '#' b ++ cs) = flags { l with alternate := l.alternate || b } cs ∧
      flags l (flag '0' b ++ cs) = flags { l with zeroPad := l.zeroPad || b } cs ∧
      flags l (flag '+' b ++ cs) = flags { l with sign := l.sign || b } cs ∧
      flags l (flag '-' b ++ cs) = flags { l with leftAlign := l.leftAlign || b } cs ∧
      flags l (flag ' ' b ++ cs) = flags { l with blankSign := l.blankSign || b } cs := by
  cases b <;> simp [flag, flags]

lemma flags_of_head (l : Layout) {cs : List Char} (h : ∀ c ∈ cs.head?, c ∉ flagChars) : flags l cs = (l, cs) := by
  cases cs with
  | nil => rfl
  | cons c cs =>
    have hc := h c rfl
    simp only [flagChars, mem_cons, not_mem_nil, or_false, not_or] at hc
    unfold flags
    split <;> simp_all

def Layout.written (l : Layout) : Layout := { l with zeroPad := l.zeroPad && !l.leftAlign }

def Layout.widthChars (l : Layout) : List Char := l.width.elim [] fun w => (toString w).toList

def Layout.precisionChars (l : Layout) : List Char := l.precision.elim [] fun p => '.' :: (toString p).toList

lemma toList_directive (hl : l.IsRaw) (verb : Char) : (l.directive verb).toList =
      '%' :: (flag ' ' l.blankSign ++ (flag '+' l.sign ++ (flag '-' l.leftAlign ++ (flag '#' l.alternate ++
        (flag '0' l.written.zeroPad ++ (l.widthChars ++ (l.precisionChars ++ [verb]))))))) := by
  simp only [Layout.directive, hl.literal, hl.detailed, flag, Layout.written, Layout.widthChars, Layout.precisionChars]
  cases l.width <;> cases l.precision <;> simp [apply_ite String.toList]

lemma Cursor.index_of_head (h : c.rest.head? ≠ some '[') : c.index n = { c with afterIndex := false } := by
  unfold Cursor.index
  split
  · rename_i hrest
    simp [hrest] at h
  · rfl

lemma head_digits (w : Nat) : ∃ d ds, (toString w).toList = d :: ds ∧ d.isDigit ∧ (0 < w → d ≠ '0') := by
  have hdigits : (toString w).toList = Nat.toDigits 10 w := Nat.toList_repr
  rw [hdigits]
  rcases Json.toDigits_eq_zero_or w with hzero | ⟨d, ds, hds, hd, -⟩
  · refine ⟨'0', [], hzero, by decide, fun hw => absurd ?_ hw.ne'⟩
    rw [← Nat.ofDigitChars_ten_toDigits (n := w), hzero]
    rfl
  · exact ⟨d, ds, hds, Json.digits_toDigits w d (hds ▸ mem_cons_self), fun _ => hd⟩

section

variable {verb : Char} (hl : l.IsRaw) (h : ¬l.Hides verb)
include h

lemma head_precisionChars : ∀ c ∈ (l.precisionChars ++ [verb]).head?, c.isDigit = false ∧ c ≠ '[' ∧
    (l.width = none → c ≠ '*' ∧ c ∉ flagChars) := by
  unfold Layout.precisionChars
  cases hp : l.precision with
  | none =>
    simp [Layout.Hides, hp] at h ⊢
    exact ⟨h.2.1, h.1, h.2.2.2⟩
  | some p => simp [flagChars]

include hl

lemma head_widthChars : ∀ c ∈ (l.widthChars ++ (l.precisionChars ++ [verb])).head?,
    c ≠ '[' ∧ c ≠ '*' ∧ c ∉ flagChars := by
  unfold Layout.widthChars
  cases hw : l.width with
  | none => exact fun c hc => (head_precisionChars h c hc).2.imp_right fun hnone => hnone hw
  | some w =>
    obtain ⟨d, ds, hds, hdigit, hzero⟩ := head_digits w
    have hzero := hzero (hl.width w hw).1
    rw [elim_some, hds]
    rintro c ⟨⟩
    have hother {x : Char} : x.isDigit = false → d ≠ x := ne_of_isDigit hdigit
    simp only [flagChars, mem_cons, not_mem_nil, or_false, not_or]
    exact ⟨hother rfl, hother rfl, hother rfl, hzero, hother rfl, hother rfl, hother rfl⟩

lemma width_of_chars (s : Supply) {l' : Layout} (hl' : l'.width = none) :
    Cursor.width s l' { rest := l.widthChars ++ (l.precisionChars ++ [verb]), next := 0 } =
      ([], { l' with width := l.width }, { rest := l.precisionChars ++ [verb], next := 0 }) := by
  have hdigit := fun c hc => (head_precisionChars h c hc).1
  have hnumber : number none (l.widthChars ++ (l.precisionChars ++ [verb])) =
      (l.width, l.precisionChars ++ [verb]) := by
    unfold Layout.widthChars
    cases hw : l.width with
    | none => exact number_of_head hdigit none
    | some w => exact number_digits (hl.width w hw).2 hdigit
  unfold Cursor.width
  split
  · rename_i rest hrest
    exact absurd rfl (head_widthChars hl h '*' (congrArg head? hrest)).2.1
  · rw [hnumber]
    cases hw : l.width with
    | none => simp [← hl']
    | some w => simp

lemma precision_of_chars (s : Supply) {l' : Layout} (hl' : l'.precision = none) :
    Cursor.precision s l' { rest := l.precisionChars ++ [verb], next := 0 } =
      ([], { l' with precision := l.precision }, { rest := [verb], next := 0 }) := by
  unfold Layout.precisionChars Cursor.precision
  cases hp : l.precision with
  | none =>
    split
    · rename_i rest hrest
      exact absurd (.inr (.inr ⟨hp, .inl (List.cons.inj hrest).1⟩)) h
    · rw [elim_none, nil_append, ← hl']
  | some p =>
    obtain ⟨d, ds, hds, hdigit, -⟩ := head_digits p
    have hnumber : number none ((toString p).toList ++ [verb]) = (some p, [verb]) := by
      refine number_digits (hl.precision p hp) fun c hc => ?_
      cases hc
      exact Bool.eq_false_iff.2 fun hverb => h (.inr (.inl hverb))
    rw [hds] at hnumber
    simp only [elim_some, hds, cons_append]
    have hother {x : Char} : x.isDigit = false → d ≠ x := ne_of_isDigit hdigit
    rw [Cursor.index_of_head (by simpa using hother rfl)]
    dsimp only
    split
    · rename_i hrest
      exact absurd (List.cons.inj hrest).1 (hother rfl)
    · rw [← cons_append, hnumber]
      rfl

lemma segments_directive (hverb : verb ≠ '%') (f : Nat → Option Int) :
    segments ⟨1, f⟩ (l.directive verb) = [.argument 0 (l.written.forVerb verb) verb] := by
  have hflags : flags {} (l.directive verb).toList.tail = ({ l.written with width := none, precision := none },
      l.widthChars ++ (l.precisionChars ++ [verb])) := by
    rw [toList_directive hl, tail_cons]
    simp only [flags_flag]
    rw [flags_of_head _ fun c hc => (head_widthChars hl h c hc).2.2]
    simp [Layout.written, hl.literal, hl.detailed]
  have hindex (c : Cursor) (hc : c.rest = [verb]) : c.index 1 = { c with afterIndex := false } :=
    Cursor.index_of_head (by simpa [hc] using fun hbracket => h (.inl hbracket))
  have hdirective : directive ⟨1, f⟩ { rest := (l.directive verb).toList.tail, next := 0 } =
      ([.argument 0 (l.written.forVerb verb) verb], { rest := [], next := 1 }) := by
    simp only [directive_eq, hflags]
    rw [Cursor.index_of_head fun hbracket => (head_widthChars hl h '[' hbracket).1 rfl, width_of_chars hl h _ rfl,
      precision_of_chars hl h _ rfl]
    simp [hindex, Cursor.verb, hverb]
    rfl
  have hstart : (l.directive verb).toList = '%' :: (l.directive verb).toList.tail := by
    rw [toList_directive hl, tail_cons]
  rw [segments, segmentsFrom_percent (c := { rest := (l.directive verb).toList, next := 0 }) hstart, hdirective,
    segmentsFrom_nil rfl]
  rfl

end

end BytecodeAudit.Text.Template
