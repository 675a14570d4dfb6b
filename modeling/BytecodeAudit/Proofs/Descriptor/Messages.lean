import Mathlib
import BytecodeAudit.Descriptor.Basic
import BytecodeAudit.Proofs.Text.Template

/-!
# Messages of descriptors

A message is shown if the template passes a trial, which writes the template over blanks and each
directive by itself. This is not a look for marks in the message:

* A verb that is hidden when its directive is written by itself suits no argument, but the trial
  does not see it. Every other mark is seen, so a message that is shown has marks of hidden verbs
  only (`of_passesTrial`).
* Templates without marks are refused if a width or precision comes from an argument, if a percent
  sign and an exclamation mark come together over blanks, or if an argument is written like a mark;
  all others pass (`passesTrial_iff_isPlain`).
-/

namespace BytecodeAudit.Text.Template

open List

/-! ### Marks in the text over blanks -/

lemma hasMark_append {p cs : List Char} (h : '%' ∉ p) : hasMark (p ++ cs) = hasMark cs := by
  induction p with
  | nil => rfl
  | cons c p ih =>
    rw [mem_cons, not_or] at h
    rw [cons_append, hasMark, ih h.2]
    rintro d hc
    exact absurd hc.symm h.1

lemma hasMark_cons_iff {c : Char} {cs : List Char} :
    hasMark (c :: cs) = true ↔ c = '%' ∧ cs.head? = some '!' ∨ hasMark cs := by
  by_cases hc : c = '%' ∧ cs.head? = some '!'
  · obtain ⟨rfl, hhead⟩ := hc
    obtain ⟨rest, rfl⟩ := head?_eq_some_iff.1 hhead
    simp [hasMark]
  · rw [hasMark, or_iff_right hc]
    rintro rest rfl rfl
    exact hc ⟨rfl, rfl⟩

section

variable {g : Segment → List Char}

lemma head?_flatMap_iff {c : Char} {xs : List Segment} (h : ∀ x ∈ xs, (∃ d, g x = [d]) ∨ c ∉ g x) :
    (xs.flatMap g).head? = some c ↔
      ∃ between y after, xs = between ++ y :: after ∧ g y = [c] ∧ ∀ z ∈ between, g z = [] := by
  induction xs with
  | nil => simp
  | cons x xs ih =>
    obtain ⟨hx, hxs⟩ := forall_mem_cons.1 h
    rw [flatMap_cons]
    constructor
    · intro hhead
      rcases hg : g x with _ | ⟨d, ds⟩
      · rw [hg, nil_append] at hhead
        obtain ⟨between, y, after, rfl, hy, hbetween⟩ := (ih hxs).1 hhead
        exact ⟨x :: between, y, after, rfl, hy, forall_mem_cons.2 ⟨hg, hbetween⟩⟩
      · rw [hg] at hhead hx
        obtain rfl : d = c := Option.some.inj hhead
        obtain ⟨d', hd'⟩ := hx.resolve_right fun hc => hc mem_cons_self
        cases hd'
        exact ⟨[], x, xs, rfl, hg, nofun⟩
    · rintro ⟨_ | ⟨z, between⟩, y, after, heq, hy, hbetween⟩
      · cases heq
        rw [hy]
        rfl
      · cases heq
        obtain ⟨hz, hbetween⟩ := forall_mem_cons.1 hbetween
        rw [hz, nil_append]
        exact (ih hxs).2 ⟨between, y, after, rfl, hy, hbetween⟩

lemma hasMark_flatMap_iff {xs : List Segment} (h : ∀ x ∈ xs, (∃ c, g x = [c]) ∨ '%' ∉ g x ∧ '!' ∉ g x) :
    hasMark (xs.flatMap g) = true ↔ ∃ before x between y after, xs = before ++ x :: (between ++ y :: after) ∧
      g x = ['%'] ∧ g y = ['!'] ∧ ∀ z ∈ between, g z = [] := by
  induction xs with
  | nil => simp [hasMark]
  | cons x xs ih =>
    obtain ⟨hx, hxs⟩ := forall_mem_cons.1 h
    have hstart : hasMark (g x ++ xs.flatMap g) ↔
        g x = ['%'] ∧ (xs.flatMap g).head? = some '!' ∨ hasMark (xs.flatMap g) = true := by
      rcases hx with ⟨c, hc⟩ | ⟨hc, -⟩
      · simp [hc, hasMark_cons_iff]
      · rw [hasMark_append hc, iff_or_self]
        exact fun hg => absurd (hg.1 ▸ mem_cons_self) hc
    rw [flatMap_cons, hstart, ih hxs, head?_flatMap_iff fun x hx => (hxs x hx).imp_right And.right]
    constructor
    · rintro (⟨hpercent, between, y, after, rfl, hrest⟩ | ⟨before, x', between, y, after, rfl, hrest⟩)
      · exact ⟨[], x, between, y, after, rfl, hpercent, hrest⟩
      · exact ⟨x :: before, x', between, y, after, rfl, hrest⟩
    · rintro ⟨_ | ⟨x', before⟩, x'', between, y, after, heq, hpercent, hrest⟩ <;>
        cases heq
      · exact .inl ⟨hpercent, between, y, after, rfl, hrest⟩
      · exact .inr ⟨before, x'', between, y, after, rfl, hpercent, hrest⟩

end

/-! ### What suits an argument -/

lemma isAlpha_of_write? {l : Layout} {verb : Char} {a : Arg} (h : (a.write? l verb).isSome) :
    verb.isAlpha = true := by
  by_cases hverb : verb.isAlpha = true
  · exact hverb
  · have hne (c : Char) (hc : c.isAlpha = true) : verb ≠ c := fun h => hverb (h ▸ hc)
    have hnone : a.write? l verb = none := by
      cases a <;> simp [Arg.write?, Layout.text?, Layout.int?, hne]
    simp [hnone] at h

lemma not_hides_of_write? {l l' : Layout} {verb : Char} {a : Arg} (h : (a.write? l' verb).isSome) :
    ¬l.Hides verb := by
  have halpha := isAlpha_of_write? h
  rintro (rfl | hdigit | ⟨-, rfl | ⟨-, hflag⟩⟩)
  · cases halpha
  · simp [Char.isAlpha, Char.isUpper, Char.isLower, Char.isDigit, UInt32.le_iff_toNat_le] at halpha hdigit
    omega
  · cases halpha
  · fin_cases hflag <;> cases halpha

def Arg.markStart (verb : Char) (a : Arg) : String :=
  "%!" ++ String.singleton verb ++ "(" ++ (match a with | .null => "<nil>)" | a => a.kind ++ "=")

lemma markStart_prefix_misfit (l : Layout) (verb : Char) (a : Arg) :
    (a.markStart verb).toList <+: (a.misfit l verb).toList := by
  cases a <;> simp [Arg.markStart, Arg.misfit]

/-- Zeros are not padded with on the right, so that it does not matter whether they are asked
for. -/
lemma write_written (l : Layout) (verb : Char) (a : Arg) :
    a.write (l.written.forVerb verb) verb = a.write (l.forVerb verb) verb := by
  rcases l with ⟨alternate, zeroPad, sign, leftAlign, blankSign, literal, detailed, width, precision⟩
  cases leftAlign with
  | false => simp [Layout.written]
  | true =>
    cases zeroPad with
    | false => rfl
    | true =>
      unfold Layout.forVerb Layout.written
      split <;> cases a <;> rfl

lemma directive_forVerb {l : Layout} (hl : l.IsRaw) (verb : Char) :
    (l.forVerb verb).directive verb = l.directive verb := by
  unfold Layout.forVerb
  split
  · simp [Layout.directive, hl.literal, hl.detailed]
  · rfl

/-- An argument refuses a directive if it is written with the start of a mark, be it one or not. -/
lemma refuses_iff {l : Layout} (hl : l.IsRaw) {verb : Char} (hverb : verb ≠ '%') (h : ¬l.Hides verb) (a : Arg) :
    a.refuses (l.forVerb verb) verb = true ↔ (a.markStart verb).toList <+: (a.write (l.forVerb verb) verb).toList := by
  have hrender : render ((l.forVerb verb).directive verb) [a] = a.write (l.forVerb verb) verb := by
    rw [render, directive_forVerb hl]
    show String.join ((segments ⟨1, _⟩ (l.directive verb)).map _) = _
    rw [segments_directive hl h hverb, ← write_written]
    simp [Segment.write]
  rw [← hrender, ← isPrefixOf_iff_prefix]
  cases a <;> simp [Arg.refuses, Arg.markStart]

/-! ### The trial -/

section

variable {args : List Arg} {x : Segment} {xs : List Segment} {l : Layout}

def Segment.blankChars (args : List Arg) (x : Segment) : List Char := (x.writeBlank args).toList

def Segment.Marks (args : List Arg) (x : Segment) : Prop := ∃ rest, x.blankChars args = '%' :: '!' :: rest

lemma passesTrial_iff {template : String} : passesTrial template args = true ↔
      hasMark ((segments (blanks args.length) template).flatMap (Segment.blankChars args)) = false ∧
        ∀ x ∈ segments (blanks args.length) template, x.refused args = false := by
  simp only [passesTrial, String.toList_join, flatMap_map, Bool.and_eq_true, Bool.not_eq_true',
    any_eq_false, Bool.not_eq_true]
  rfl

lemma hasMark_of_mem (hx : x ∈ xs) (h : x.Marks args) : hasMark (xs.flatMap (Segment.blankChars args)) = true := by
  have happend (p rest : List Char) : hasMark (p ++ '%' :: '!' :: rest) = true := by
    induction p with
    | nil => rfl
    | cons c p ih => exact hasMark_cons_iff.2 (.inr ih)
  obtain ⟨rest, hrest⟩ := h
  obtain ⟨before, after, rfl⟩ := append_of_mem hx
  rw [flatMap_append, flatMap_cons, hrest]
  exact happend ..

lemma marks_fault (args : List Arg) (f : Fault) : (Segment.fault f).Marks args := by
  cases f <;> simp [Segment.Marks, Segment.blankChars, Segment.writeBlank, Segment.write, Fault.mark]

def Segment.IsBlank : Segment → Prop
  | .argument _ l verb => verb = 'T' → l.precision = some 0 ∧ l.width.getD 0 = 0
  | _ => False

lemma mem_pad {s : String} {c : Char} (h : c ∈ (l.pad s).toList) : c ∈ s.toList ∨ c = '0' ∨ c = ' ' := by
  have hfill (n : Nat) (hc : c ∈ (l.fill n).toList) : c = '0' ∨ c = ' ' := by
    rw [Layout.fill, String.toList_ofList] at hc
    rw [(mem_replicate.1 hc).2]
    split
    · exact .inl rfl
    · exact .inr rfl
  simp only [Layout.pad] at h
  split at h <;> rw [String.toList_append, mem_append] at h
  · exact h.imp_right (hfill _)
  · exact h.symm.imp_right (hfill _)

lemma mem_plain {s : String} {c : Char} (h : c ∈ (l.plain s).toList) : c ∈ s.toList ∨ c = '0' ∨ c = ' ' := by
  refine (mem_pad h).imp_left fun hc => ?_
  unfold Layout.cut at hc
  split at hc
  · exact mem_of_mem_take (by simpa using hc)
  · exact hc

lemma plain_eq_nil_iff {s : String} (hs : s ≠ "") :
    (l.plain s).toList = [] ↔ l.precision = some 0 ∧ l.width.getD 0 = 0 := by
  have hcut : l.cut s = "" ↔ l.precision = some 0 := by
    unfold Layout.cut
    split <;> simp_all
  rw [← hcut]
  by_cases hempty : l.cut s = "" <;> simp only [Layout.plain, Layout.pad] <;> split <;> simp [Layout.fill, hempty]

lemma marks_unsuited (i : Nat) (l : Layout) {verb : Char} (h : verb = 'p' ∨ verb = 'w') :
    (Segment.argument i l verb).Marks args := by
  rcases h with rfl | rfl <;> simp [Segment.Marks, Segment.blankChars, Segment.writeBlank]

/-- Over blanks an argument is a mark, or free of the characters of one. -/
lemma blankChars_argument (args : List Arg) (i : Nat) (l : Layout) (verb : Char) :
    (Segment.argument i l verb).Marks args ∧ (∀ a l', Arg.write? l' verb a = none) ∨
      '%' ∉ (Segment.argument i l verb).blankChars args ∧ '!' ∉ (Segment.argument i l verb).blankChars args ∧
        ((Segment.argument i l verb).blankChars args = [] ↔ (Segment.argument i l verb).IsBlank) := by
  by_cases hverb : verb = 'p' ∨ verb = 'w'
  · refine .inl ⟨marks_unsuited i l hverb, fun a l' => ?_⟩
    rcases hverb with rfl | rfl <;> cases a <;> rfl
  right
  rw [not_or] at hverb
  by_cases hkind : verb = 'T'
  · subst hkind
    have hmem (c : Char) (hc : c ∈ (l.plain "blank").toList) : c ∈ "blank0 ".toList := by
      simpa [or_assoc] using mem_plain hc
    exact ⟨fun hc => absurd (hmem _ hc) (by decide), fun hc => absurd (hmem _ hc) (by decide),
      (plain_eq_nil_iff (by decide)).trans ⟨fun h _ => h, fun h => h rfl⟩⟩
  · simp [Segment.blankChars, Segment.writeBlank, hverb, hkind, Segment.IsBlank]

lemma blankChars_text (args : List Arg) (c : Char) : (Segment.text [c]).blankChars args = [c] := by
  simp [Segment.blankChars, Segment.writeBlank, Segment.write]

/-- Whether a percent sign of the template meets an exclamation mark over blanks, with nothing
between them but arguments that leave nothing there. -/
def Meets (xs : List Segment) : Prop :=
  ∃ before between after, xs = before ++ .text ['%'] :: (between ++ .text ['!'] :: after) ∧
    ∀ x ∈ between, x.IsBlank

lemma hasMark_iff_meets (hread : ∀ x ∈ xs, x.IsRead) (hfree : ∀ x ∈ xs, ¬x.Marks args) :
    hasMark (xs.flatMap (Segment.blankChars args)) = true ↔ Meets xs := by
  have hcases : ∀ x ∈ xs, ((∃ c, x = .text [c]) ∨ '%' ∉ x.blankChars args ∧ '!' ∉ x.blankChars args) ∧
      (x.blankChars args = [] ↔ x.IsBlank) := by
    intro x hx
    cases hread x hx with
    | text c => exact ⟨.inl ⟨c, rfl⟩, by simp [blankChars_text, Segment.IsBlank]⟩
    | argument i hl hverb =>
      obtain ⟨hmarks, -⟩ | ⟨hpercent, hbang, hblank⟩ := blankChars_argument args i _ _
      · exact absurd hmarks (hfree _ hx)
      · exact ⟨.inr ⟨hpercent, hbang⟩, hblank⟩
  have htext (x : Segment) (hx : x ∈ xs) (c : Char) (hc : c = '%' ∨ c = '!') (h : x.blankChars args = [c]) :
      x = .text [c] := by
    obtain ⟨d, rfl⟩ | ⟨hpercent, hbang⟩ := (hcases x hx).1
    · rw [← blankChars_text args d, h]
    · rw [h] at hpercent hbang
      rcases hc with rfl | rfl <;> simp at hpercent hbang
  rw [hasMark_flatMap_iff fun x hx => (hcases x hx).1.imp_left fun ⟨c, h⟩ => ⟨c, h ▸ blankChars_text args c⟩]
  constructor
  · rintro ⟨before, x, between, y, after, rfl, hpercent, hbang, hbetween⟩
    obtain rfl := htext x (by simp) '%' (.inl rfl) hpercent
    obtain rfl := htext y (by simp) '!' (.inr rfl) hbang
    exact ⟨before, between, after, rfl, fun z hz => (hcases z (by simp [hz])).2.1 (hbetween z hz)⟩
  · rintro ⟨before, between, after, rfl, hbetween⟩
    exact ⟨before, _, between, _, after, rfl, blankChars_text .., blankChars_text ..,
      fun z hz => (hcases z (by simp [hz])).2.2 (hbetween z hz)⟩

def Segment.Hides : Segment → Prop
  | .argument _ l verb => l.Hides verb
  | _ => False

def Segment.Imitates (args : List Arg) : Segment → Prop
  | .argument i l verb =>
    ∃ s, (args[i]?.getD .null).write? l verb = some s ∧ ((args[i]?.getD .null).markStart verb).toList <+: s.toList
  | _ => False

lemma hides_forVerb {verb : Char} : (l.forVerb verb).Hides verb ↔ l.Hides verb := by
  unfold Layout.forVerb
  split <;> rfl

lemma not_hides_of_fits (h : x.fits args) : ¬x.Hides := by
  cases x with
  | text | fault => exact id
  | argument i l verb => exact not_hides_of_write? h

lemma not_imitates_kind (i : Nat) (l : Layout) : ¬(Segment.argument i l 'T').Imitates args := by
  rintro ⟨s, hs, hstart⟩
  have hmem : '%' ∈ s.toList := hstart.subset (by simp [Arg.markStart])
  generalize args[i]?.getD .null = a at hs
  cases a with
  | text | int | bool =>
    cases hs
    simpa using mem_plain hmem
  | null =>
    cases hs
    simpa using mem_pad hmem

lemma markStart_prefix_write {verb : Char} {a : Arg} : (a.markStart verb).toList <+: (a.write l verb).toList ↔
      a.write? l verb = none ∨ ∃ s, a.write? l verb = some s ∧ (a.markStart verb).toList <+: s.toList := by
  rcases h : a.write? l verb with _ | s
  · simp [Arg.write, h, markStart_prefix_misfit]
  · simp [Arg.write, h]

lemma refused_iff (hread : x.IsRead) (hfree : ¬x.Marks args) (hhides : ¬x.Hides) :
    x.refused args = true ↔ x.fits args = false ∨ x.Imitates args := by
  cases hread with
  | text c => simp [Segment.refused, Segment.fits, Segment.Imitates]
  | @argument i l hl verb hverb =>
    by_cases hkind : verb = 'T'
    · subst hkind
      have hsome (a : Arg) : (a.write? (l.forVerb 'T') 'T').isSome = true := by cases a <;> rfl
      simp [Segment.refused, Segment.fits, hsome, not_imitates_kind]
    · have hblank : ¬(verb = 'p' ∨ verb = 'w') := fun h => hfree (marks_unsuited i (l.forVerb verb) h)
      have hrefuses := refuses_iff hl hverb (hides_forVerb.not.1 hhides) (args[i]?.getD .null)
      rw [not_or] at hblank
      rw [markStart_prefix_write] at hrefuses
      simpa [Segment.refused, Segment.fits, Segment.Imitates, hkind, hblank] using hrefuses

lemma not_marks_of_fits (hread : x.IsRead) (h : x.fits args) : ¬x.Marks args := by
  cases hread with
  | text c => simp [Segment.Marks, blankChars_text]
  | @argument i l hl verb hverb =>
    obtain ⟨-, hnone⟩ | ⟨hpercent, -⟩ := blankChars_argument args i (l.forVerb verb) verb
    · simp [Segment.fits, hnone] at h
    · exact fun ⟨rest, heq⟩ => hpercent (heq ▸ mem_cons_self)

/-! ### Templates that pass -/

variable {template : String}

/-- Whether the trial of a template says what becomes of it: no width or precision comes from the
arguments, no percent sign meets an exclamation mark, and no argument is written like a mark. -/
structure IsPlain (template : String) (args : List Arg) : Prop where
  steady : ∀ f g, segments ⟨args.length, f⟩ template = segments ⟨args.length, g⟩ template
  apart : ¬Meets (segments (.ofArgs args) template)
  honest : ∀ x ∈ segments (.ofArgs args) template, ¬x.Imitates args

/-- The trial sees every mark but those of hidden verbs. -/
lemma of_passesTrial (h : passesTrial template args) :
    (∀ f, segments ⟨args.length, f⟩ template = segments (blanks args.length) template) ∧
      ∀ x ∈ segments (blanks args.length) template, x.fits args ↔ ¬x.Hides := by
  obtain ⟨hmark, hrefused⟩ := passesTrial_iff.1 h
  have hfree : ∀ x ∈ segments (blanks args.length) template, ¬x.Marks args := by
    intro x hx hmarks
    rw [hasMark_of_mem hx hmarks] at hmark
    cases hmark
  obtain ⟨hsteady, hread⟩ := segmentsFrom_cases fun f hf => hfree (.fault f) hf (marks_fault args f)
  refine ⟨hsteady, fun x hx => ⟨not_hides_of_fits, fun hhides => ?_⟩⟩
  by_contra hfits
  exact ne_true_of_eq_false (hrefused x hx)
    ((refused_iff (hread x hx) (hfree x hx) hhides).2 (.inl (by simpa using hfits)))

lemma passesTrial_iff_isPlain (h : fits template args) :
    passesTrial template args = true ↔ IsPlain template args := by
  have hall : ∀ x ∈ segments (.ofArgs args) template, x.fits args := all_eq_true.1 h
  -- Where the supply does not matter, the segments that are tried are those that are written.
  have htrial (heq : segments (.ofArgs args) template = segments (blanks args.length) template) :
      passesTrial template args = true ↔ ¬Meets (segments (.ofArgs args) template) ∧
        ∀ x ∈ segments (.ofArgs args) template, ¬x.Imitates args := by
    have hread : ∀ x ∈ segments (.ofArgs args) template, x.IsRead := by
      rw [heq] at hall ⊢
      exact (segmentsFrom_cases fun f hf => nomatch hall _ hf).2
    have hfree : ∀ x ∈ segments (.ofArgs args) template, ¬x.Marks args := fun x hx =>
      not_marks_of_fits (hread x hx) (hall x hx)
    rw [passesTrial_iff, ← heq, ← hasMark_iff_meets hread hfree, Bool.not_eq_true]
    refine and_congr_right fun _ => forall₂_congr fun x hx => ?_
    rw [← Bool.not_eq_true, refused_iff (hread x hx) (hfree x hx) (not_hides_of_fits (hall x hx))]
    simp [hall x hx]
  constructor
  · intro hpasses
    obtain ⟨hsteady, -⟩ := of_passesTrial hpasses
    obtain ⟨hapart, hhonest⟩ := (htrial (hsteady _)).1 hpasses
    exact ⟨fun f g => (hsteady f).trans (hsteady g).symm, hapart, hhonest⟩
  · intro hplain
    exact (htrial (hplain.steady _ _)).2 ⟨hplain.apart, hplain.honest⟩

end

end BytecodeAudit.Text.Template

namespace BytecodeAudit.Descriptor

open Text.Template

/-- A message is shown with marks only where a verb is hidden, and each hidden verb leaves one; the
title stands in only if the template does not fit or is not plain. -/
theorem message_marks_hidden_verbs {d : Descriptor} (h : d.messageFormat ≠ "") (args : List Arg) :
    d.message args = (render d.messageFormat args, true) ∧
        (∀ x ∈ segments (.ofArgs args) d.messageFormat, x.fits args = true ↔ ¬x.Hides) ∨
      d.message args = (d.title, false) ∧ ¬(fits d.messageFormat args = true ∧ IsPlain d.messageFormat args) := by
  by_cases hpasses : passesTrial d.messageFormat args = true
  · obtain ⟨hsteady, hfits⟩ := of_passesTrial hpasses
    have heq : segments (.ofArgs args) d.messageFormat = segments (blanks args.length) d.messageFormat := hsteady _
    refine .inl ⟨by simp [message, h, hpasses], fun x hx => ?_⟩
    rw [heq] at hx
    exact hfits x hx
  · refine .inr ⟨by simp [message, h, hpasses], fun ⟨hfits, hplain⟩ => ?_⟩
    exact hpasses ((passesTrial_iff_isPlain hfits).2 hplain)

def withTemplate (template : String) : Descriptor where
  id := "AAA0001"
  title := "Boxing"
  messageFormat := template

theorem message_marks_hidden_verbs_bracket :
    (withTemplate "%[1][2]d").messageFormat ≠ "" ∧
      ∀ x ∈ segments (.ofArgs [.int 1, .int 2]) "%[1][2]d", x.fits [.int 1, .int 2] = true ↔ ¬x.Hides := by
  have hformat : (withTemplate "%[1][2]d").messageFormat ≠ "" := by decide
  have hshown : ((withTemplate "%[1][2]d").message [.int 1, .int 2]).2 = true := by cbv
  obtain ⟨-, hfits⟩ | ⟨htitle, -⟩ := message_marks_hidden_verbs hformat [.int 1, .int 2]
  · exact ⟨hformat, hfits⟩
  · rw [htitle] at hshown
    cases hshown

theorem message_with_mark :
    (withTemplate "%[1][2]d").message [.int 1, .int 2] = ("%![(int=1)2]d", true) ∧
      fits "%[1][2]d" [.int 1, .int 2] = false :=
  ⟨by cbv, by cbv⟩

/-- A template that fits is used if it is plain, and the title stands in otherwise. -/
theorem message_of_fits {d : Descriptor} (h : d.messageFormat ≠ "") {args : List Arg}
    (hfits : fits d.messageFormat args = true) :
    d.message args = (render d.messageFormat args, true) ∧ IsPlain d.messageFormat args ∨
      d.message args = (d.title, false) ∧ ¬IsPlain d.messageFormat args := by
  rw [← passesTrial_iff_isPlain hfits]
  by_cases hpasses : passesTrial d.messageFormat args = true <;> simp [message, h, hpasses]

theorem message_of_fits_discount :
    (withTemplate "50%% %s!").message [.text "%!"] = (render "50%% %s!" [.text "%!"], true) ∧
      IsPlain "50%% %s!" [.text "%!"] := by
  have hformat : (withTemplate "50%% %s!").messageFormat ≠ "" := by decide
  have hfits : fits (withTemplate "50%% %s!").messageFormat [.text "%!"] = true := by cbv
  have hshown : ((withTemplate "50%% %s!").message [.text "%!"]).2 = true := by cbv
  obtain hplain | ⟨htitle, -⟩ := message_of_fits hformat hfits
  · exact hplain
  · rw [htitle] at hshown
    cases hshown

/-- The three ways in which a template that fits is not plain. -/
theorem message_refuses_fitting :
    (fits "50%%! off" [] = true ∧ (withTemplate "50%%! off").message [] = ("Boxing", false)) ∧
    (fits "%*d" [.int 5, .int 42] = true ∧ (withTemplate "%*d").message [.int 5, .int 42] = ("Boxing", false)) ∧
    fits "%s" [.text "%!s(string=x)"] = true ∧
      (withTemplate "%s").message [.text "%!s(string=x)"] = ("Boxing", false) :=
  ⟨⟨by cbv, by cbv⟩, ⟨by cbv, by cbv⟩, by cbv, by cbv⟩

end BytecodeAudit.Descriptor
