import Mathlib.Data.List.TakeWhile
import BytecodeAudit.Auditor
import BytecodeAudit.Proofs.Disk.Saved
import BytecodeAudit.Proofs.Json.RoundTrip
import BytecodeAudit.Proofs.Yaml.Writing

/-!
# Fixed settings

An audit finds settings by dotted keys in the table that a file is read as, and a fix writes the
recommended value at the path of the key in the tree of the file. Both mean the same value where the
settings mirror the tree (`mirrors`). So fixing all findings, in any order, leaves none
(`audit_of_fix`). Where a value is shared through an alias, its fix can make another check fail
(`fix_aliased`).
-/

namespace BytecodeAudit

open List Option

namespace Yaml.ScalarValue

/-! ### Written numbers -/

open Json (toDigits_eq_zero_or digits_toDigits toList_toString_int exists_toString_int_eq_cons)

lemma number?_toDigits (n : Nat) : Text.number? 10 (Nat.toDigits 10 n) = some n := by
  have hfold : ∀ (cs : List Char) (m : Nat), (∀ c ∈ cs, c.isDigit) →
      cs.foldlM (fun n c => (Text.digit? 10 c).map (n * 10 + ·)) m = some (Nat.ofDigitChars 10 cs m) := by
    intro cs
    induction cs with
    | nil => exact fun _ _ => rfl
    | cons c cs ih =>
      intro m h
      obtain ⟨hc, h⟩ := forall_mem_cons.1 h
      have hrange : 48 ≤ c.toNat ∧ c.toNat ≤ 57 := Char.isDigit_iff_toNat.1 hc
      have hdigit : Text.digit? 10 c = some (c.toNat - '0'.toNat) := by
        rw [Text.digit?, Text.hexValue?, if_pos (by simpa using hrange), filter_some, if_pos (by simp; omega)]
        rfl
      rw [foldlM_cons, hdigit, Nat.ofDigitChars_cons, Nat.mul_comm, ← ih _ h]
      rfl
  rw [Text.number?, if_neg (by simp [Nat.toDigits_ne_nil]), hfold _ _ (digits_toDigits n),
    Nat.ofDigitChars_ten_toDigits]

lemma magnitude?_toDigits (n : Nat) : magnitude? (Nat.toDigits 10 n) = some n := by
  have hbase : Text.baseOf (Nat.toDigits 10 n) = (10, Nat.toDigits 10 n) := by
    rcases toDigits_eq_zero_or n with h | ⟨c, cs, h, hc, -⟩
    · rw [h]
      rfl
    · rw [h, Text.baseOf]
      rintro _ _ heq
      exact hc (List.cons.inj heq).1
  rw [magnitude?, hbase]
  exact number?_toDigits n

lemma int?_toString {n : Int} (h : Word.fitsSigned 64 n) : int? (toString n).toList = some n := by
  simp only [Word.fitsSigned, Bool.and_eq_true, decide_eq_true_eq, Nat.reduceSub] at h
  rw [toList_toString_int]
  by_cases hn : n < 0
  · rw [if_pos hn, singleton_append, int?, magnitude?_toDigits, filter_some, if_pos (decide_eq_true (by omega))]
    show some (-(n.natAbs : Int)) = some n
    exact congrArg some (by omega)
  · have hspan : Word.span 63 ≤ Word.span 64 := by decide
    have hsign {c : Char} {cs : List Char} (hcs : Nat.toDigits 10 n.natAbs = c :: cs) : c.isDigit :=
      digits_toDigits _ c (hcs ▸ mem_cons_self)
    rw [if_neg hn, nil_append, int?, magnitude?_toDigits, filter_some, if_pos (decide_eq_true (by omega)), map_some,
      some_inj]
    · exact Int.natAbs_of_nonneg (by omega)
    · exact fun cs hcs => absurd (hsign hcs) (by decide)
    · exact fun cs hcs => absurd (hsign hcs) (by decide)

lemma time?_toString (n : Int) : time? (toString n).toList = none := by
  rw [toList_toString_int]
  by_cases hn : n < 0
  · rw [if_pos hn]
    rfl
  · have hyear := takeWhile_eq_self_iff.2 (digits_toDigits n.natAbs)
    rw [if_neg hn, nil_append, time?, hyear]
    dsimp only
    by_cases hlength : (Nat.toDigits 10 n.natAbs).length = 4
    · rw [drop_eq_nil_of_le hlength.le, if_neg (by simp [hlength])]
      rfl
    · rw [if_pos (by simpa using hlength)]
      rfl

/-- A number that is written plain reads as itself. -/
lemma ofPlain_toString {n : Int} (h : Word.fitsSigned 64 n) : ofPlain (toString n) = .int n := by
  have hint := int?_toString h
  have hword : word? (toString n) = none := by
    have hnot (words : List String) (hwords : ∀ w ∈ words, int? w.toList = none) : ¬ words.contains (toString n) :=
      fun hmem => by cases (hwords _ (by simpa using hmem)).symm.trans hint
    unfold word?
    iterate 6 rw [if_neg (hnot _ (by decide))]
  have hplain : (toString n).toList.filter (· != '_') = (toString n).toList := by
    rw [filter_eq_self]
    rintro c hc
    rcases Json.isDigit_or_of_mem_toString hc with hc | rfl
    · exact bne_iff_ne.2 fun heq => absurd (heq ▸ hc) (by decide)
    · rfl
  obtain ⟨c, cs, hcs, hc⟩ := exists_toString_int_eq_cons n
  have hnumeric : numeric? (c :: cs) = some (.int n) := by
    rw [← hcs, numeric?, hplain, time?_toString, hint]
    rfl
  have hstart : (c.isDigit || c == '+' || c == '-') = true := by
    rcases hc with hc | rfl
    · rw [hc]; rfl
    · rfl
  rw [ofPlain, hword, hcs]
  dsimp only
  rw [if_pos hstart, hnumeric]
  rfl

end Yaml.ScalarValue

/-- A file that can be read can be written over, and is then read as it was written. -/
lemma Disk.IsTree.exists_write {d : Disk} (hd : d.IsTree) {path : String} {old : Bytes} (h : d.read path = .ok old)
    (content : Bytes) : ∃ d', d.write path content = .ok d' ∧ d'.IsTree ∧ d'.read path = .ok content := by
  obtain ⟨p, hplace, hat⟩ := read_eq_ok_iff.1 h
  obtain ⟨d', hwrite⟩ : ∃ d', d.write path content = .ok d' := ⟨_, by rw [write, hplace]; dsimp only; rw [hat]⟩
  obtain ⟨q, hq, hchanges, hat'⟩ := hd.changesFile_write hwrite
  have hplace' : d'.place path = .ok q := eq_ok_of_toOption ((hchanges.place_eq hd path).trans hq)
  exact ⟨d', hwrite, hchanges.isTree, read_eq_ok_iff.2 ⟨q, hplace', hat'⟩⟩

namespace Analyzer.Settings

open Setting (keyParts readDocument isYamlPath)
open Yaml (Node)

variable {c : Check} {r : AuditRequest} {settings settings' : Setting} {i : Issue} {is : List Issue}

/-! ### Findings -/

/-- An issue without its line. -/
def unplaced (i : Issue) : Issue := { i with location := i.location.map fun l => { l with line := 0 } }

/-- What a check finds, the line aside. -/
def found (r : AuditRequest) (settings : Setting) (c : Check) : Except Failure (Option Issue) :=
  (c.run r settings 0).map (Option.map (·.1))

lemma map_run (c : Check) (r : AuditRequest) (settings : Setting) (line : Nat) :
    (c.run r settings line).map (Option.map fun x => unplaced x.1) = found r settings c := by
  rw [found, Check.run, Check.run]
  split
  · split
    · rfl
    · rcases c.test.verdict r _ with f | _ | verdict <;> rfl
  · rfl

/-- All that a check sees of a value. -/
def seen (v : Setting) : String × Int × Bool := (v.toText, v.toInt, v.toBool)

lemma verdict_congr {v v' : Setting} (h : seen v' = seen v) (t : Test) (r : AuditRequest) :
    t.verdict r v' = t.verdict r v := by
  have hint : v'.toInt = v.toInt := congrArg (·.2.1) h
  have hbool : v'.toBool = v.toBool := congrArg (·.2.2) h
  rcases t with _ | _ | _ <;> simp only [Test.verdict, hint, hbool]

lemma found_congr (h : (settings'.find? c.key).map seen = (settings.find? c.key).map seen) :
    found r settings' c = found r settings c := by
  rw [found, found, Check.run, Check.run]
  rcases hv' : settings'.find? c.key with _ | v' <;> rw [hv', eq_comm] at h
  · rw [map_eq_none_iff.1 h]
  · obtain ⟨v, hv, hseen⟩ := map_eq_some_iff.1 h
    have htext : v.toText = v'.toText := congrArg (·.1) hseen
    rw [hv]
    rcases r.catalog.get? c.id with _ | descriptor
    · rfl
    · simp only [verdict_congr hseen, htext]

lemma found_of_verdict {value : Setting} (hvalue : (settings.find? c.key).map seen = some (seen value))
    (hverdict : c.test.verdict r value = .ok none) : found r settings c = .ok none := by
  obtain ⟨v, hv, hseen⟩ := map_eq_some_iff.1 hvalue
  rw [found, Check.run, hv]
  split
  · next heq =>
    cases heq
    rw [verdict_congr hseen, hverdict]
    split <;> rfl
  · rfl

lemma exists_of_found (h : found r settings c = .ok (some i)) :
    ∃ value verdict, settings.find? c.key = some value ∧ c.test.verdict r value = .ok (some verdict) ∧
      i.descriptorId = c.id ∧ i.properties = [c.key, value.toText, verdict.recommended] ∧
      i.location = some { path := r.settingsPath } := by
  rw [found, Check.run] at h
  split at h
  · next value _ hvalue =>
    split at h
    · cases h
    · rcases hverdict : c.test.verdict r value with f | _ | verdict <;> rw [hverdict] at h <;> cases h
      exact ⟨value, verdict, hvalue, hverdict, rfl, rfl, rfl⟩
  · cases h

lemma checks_inj : ∀ c ∈ checks, ∀ c' ∈ checks, c ≠ c' → c.id ≠ c'.id ∧ keyParts c.key ≠ keyParts c'.key := by
  decide

lemma length_keyParts : ∀ c ∈ checks, (keyParts c.key).length = 2 := by
  decide

/-- Whether checks find some issues, and none of them fails. -/
def AreFound (r : AuditRequest) (settings : Setting) (cs : List Check) (is : List Issue) : Prop :=
  (∀ c ∈ cs, ∃ x, found r settings c = .ok x) ∧ cs.filterMap (fun c => (found r settings c).toOption.join) = is

lemma areFound_iff {line : Check → Nat} {cs : List Check} :
    (runChecks (fun c => c.run r settings (line c)) cs).2.map (·.map unplaced) = .ok is ↔
      AreFound r settings cs is := by
  induction cs generalizing is with
  | nil => simp [runChecks, AreFound, Except.map]
  | cons c cs ih =>
    have hfound := map_run c r settings (line c)
    rw [runChecks]
    rcases hrun : c.run r settings (line c) with f | _ | ⟨issue, warning⟩ <;> rw [hrun] at hfound
    · simp [AreFound, ← hfound, Except.map]
    · simpa [AreFound, ← hfound, Except.map, Except.toOption] using ih
    · have hcons : AreFound r settings (c :: cs) is ↔
          ∃ rest, AreFound r settings cs rest ∧ unplaced issue :: rest = is := by
        simp [AreFound, ← hfound, Except.map, Except.toOption]
      simp only [hcons, ← ih]
      rcases (runChecks (fun c => c.run r settings (line c)) cs).2 with f | rest <;> simp [Except.map]

/-- Where the value of one check has changed, and passes now, its finding is gone and the others are
left. -/
lemma AreFound.filter (h : AreFound r settings checks is) (hc : c ∈ checks)
    (hself : found r settings' c = .ok none)
    (hother : ∀ c' ∈ checks, c' ≠ c → found r settings' c' = found r settings c') :
    AreFound r settings' checks (is.filter (·.descriptorId != c.id)) := by
  obtain ⟨hall, rfl⟩ := h
  refine ⟨fun c' hc' => ?_, ?_⟩
  · by_cases hne : c' = c
    · exact ⟨none, hne ▸ hself⟩
    · exact hother c' hc' hne ▸ hall c' hc'
  · rw [filter_filterMap]
    refine filterMap_congr fun c' hc' => ?_
    obtain ⟨x, hx⟩ := hall c' hc'
    by_cases hne : c' = c
    · rw [hne, hself, ← hne, hx]
      rcases x with _ | i
      · rfl
      · obtain ⟨-, -, -, -, hid, -⟩ := exists_of_found hx
        simp [Except.toOption, Option.filter, hid, hne]
    · rw [hother c' hc' hne, hx]
      rcases x with _ | i
      · rfl
      · obtain ⟨-, -, -, -, hid, -⟩ := exists_of_found hx
        have hids : c'.id ≠ c.id := (checks_inj c' hc' c hc hne).1
        simp [Except.toOption, Option.filter, hid, hids]

/-! ### Recommended values -/

/-- The setting of a scalar with a tag or, where it has none, with that of its plain text. -/
def scalarSetting (tag text : String) : Setting :=
  ((Yaml.ScalarValue.ofTagged? (if tag == "" then Yaml.Reading.scalarTag .plain text else tag) text).map
    Yaml.ScalarValue.toSetting).getD .null

/-- Whether the thresholds of a request are integers of 64 bits. -/
def HasLimits (r : AuditRequest) : Prop :=
  ∀ x ∈ thresholds, ∀ limit, r.params.getFor x.1 r.platform = .ok limit → Word.fitsSigned 64 limit = true

lemma scalarSetting_of_int {text : String} {n : Int} (h : Yaml.ScalarValue.ofPlain text = .int n) :
    scalarSetting "" text = .int n := by
  have hmerge : text ≠ "<<" := by
    rintro rfl
    rw [show Yaml.ScalarValue.ofPlain "<<" = .text "<<" by decide +kernel] at h
    cases h
  have htag : Yaml.Reading.scalarTag .plain text = Yaml.tagInt := by
    simp [Yaml.Reading.scalarTag, hmerge, h, Yaml.ScalarValue.tag]
  rw [scalarSetting, beq_self_eq_true, if_pos rfl, htag, Yaml.ScalarValue.ofTagged?, h]
  rfl

/-- A recommended value passes the test that recommends it. -/
lemma verdict_recommended (hr : HasLimits r) (hc : c ∈ checks) {value : Setting} {verdict : Verdict}
    (h : c.test.verdict r value = .ok (some verdict)) :
    c.test.verdict r (scalarSetting "" verdict.recommended) = .ok none := by
  have hparams : ∀ c ∈ checks, ∀ param, c.test = .below param ∨ c.test = .above param →
      param ∈ thresholds.map (·.1) := by
    simp [checks, thresholds]
  specialize hparams c hc
  rcases htest : c.test with param | param | _ <;> rw [htest] at h hparams
  case disabled =>
    rw [Test.verdict] at h
    split at h <;> cases h
    rfl
  all_goals
    rcases hget : r.params.getFor param r.platform with f | limit <;> rw [Test.verdict, hget] at h
    · cases h
    obtain ⟨x, hx, rfl⟩ := List.mem_map.1 (hparams param (by simp))
    have hfits := hr x hx limit hget
    have hrecommended : verdict.recommended = toString limit := by
      have hjudge := Except.ok.inj h
      rw [judge] at hjudge
      split at hjudge <;> cases hjudge
      rfl
    have hint : (scalarSetting "" verdict.recommended).toInt = limit := by
      rw [hrecommended, scalarSetting_of_int (Yaml.ScalarValue.ofPlain_toString hfits)]
      exact if_pos hfits
    rw [Test.verdict, hget]
    simp [bind, Except.bind, judge, hint]

/-! ### Settings and trees -/

variable {doc doc' : Yaml.Document}

/-- What a check sees at the path of its key in a document, if a scalar stands there. -/
def seenAt (doc : Yaml.Document) (c : Check) : Option (String × Int × Bool) :=
  match doc.at? (keyParts c.key) with
  | some (.scalar t _ text) => some (seen (scalarSetting t.tag text))
  | _ => none

/-- Whether checks see in settings what stands at the paths of their keys in a document. -/
def mirrors (settings : Setting) (doc : Yaml.Document) : Bool :=
  checks.all fun c => (settings.find? c.key).map seen == seenAt doc c

lemma mirrors_iff : mirrors settings doc ↔ ∀ c ∈ checks, (settings.find? c.key).map seen = seenAt doc c := by
  simp [mirrors]

/-- Setting the value of a check changes what it sees, and nothing that another check sees. -/
lemma exists_setAt (hc : c ∈ checks) (h : (seenAt doc c).isSome) (text : String) :
    ∃ doc', doc.setAt (keyParts c.key) text = .ok doc' ∧ seenAt doc' c = some (seen (scalarSetting "" text)) ∧
      ∀ c' ∈ checks, c' ≠ c → seenAt doc' c' = seenAt doc c' := by
  have hpath (c : Check) (hc : c ∈ checks) : keyParts c.key ≠ [] :=
    ne_nil_of_length_pos (by rw [length_keyParts c hc]; decide)
  have hat : ((doc.root.getD Node.emptyMapping).at? (keyParts c.key)).isSome := by
    rw [← Yaml.Document.at?_eq doc (hpath c hc)]
    rw [seenAt] at h
    rcases hn : doc.at? (keyParts c.key) with _ | n
    · rw [hn] at h
      cases h
    · rfl
  obtain ⟨n', hset⟩ := Node.SetTo.exists_of_isSome text hat
  refine ⟨{ doc with root := some n' }, Yaml.Document.setAt_eq_ok_iff.2 ⟨n', hset, rfl⟩, ?_, fun c' hc' hne => ?_⟩
  · obtain ⟨t, htag, -, hat⟩ := hset.exists_at?_eq
    rw [seenAt, Yaml.Document.at?_eq _ (hpath c hc), getD_some, hat]
    exact congrArg (fun tag => some (seen (scalarSetting tag text))) htag
  · have hpaths := (checks_inj c' hc' c hc hne).2
    have hlength := (length_keyParts c' hc').trans (length_keyParts c hc).symm
    rw [seenAt, seenAt, Yaml.Document.at?_eq _ (hpath c' hc'), Yaml.Document.at?_eq _ (hpath c' hc'), getD_some,
      hset.at?_eq]
    · exact fun hpre => hpaths (hpre.eq_of_length hlength)
    · exact fun hpre => hpaths (hpre.eq_of_length hlength.symm).symm

/-! ### Audits of a file -/

variable {d : Disk}

/-- Whether the settings file of a request has some settings and a document that they mirror. -/
structure Holds (r : AuditRequest) (d : Disk) (settings : Setting) (doc : Yaml.Document) : Prop where
  isTree : d.IsTree
  isYaml : isYamlPath r.settingsPath = true
  read : ∃ bytes, d.read r.settingsPath = .ok bytes ∧ readDocument bytes = .ok doc ∧
    Yaml.settingOfBytes bytes = .ok settings
  mirrors : mirrors settings doc = true

lemma Holds.load_eq (h : Holds r d settings doc) : Setting.load d r.settingsPath = .ok settings := by
  obtain ⟨bytes, hread, -, hsettings⟩ := h.read
  have hformat : SettingFormat.ofPath? r.settingsPath = some .yaml := by
    have hyaml := h.isYaml
    rw [isYamlPath, Bool.or_eq_true, beq_iff_eq, beq_iff_eq] at hyaml
    rcases hyaml with h | h <;> simp only [SettingFormat.ofPath?, h]
  have hload : Setting.load d r.settingsPath =
      Failure.within ("reading settings " ++ r.settingsPath) (Setting.ofText .yaml bytes) := by
    rw [Setting.load, hformat, hread]
    rfl
  rw [hload]
  unfold Setting.ofText
  simp only [hsettings]
  rfl

/-- An audit reports what the checks find in the settings. -/
lemma Holds.batches_audit_iff (h : Holds r d settings doc) : (audit r d).batches.map (·.map unplaced) = [is] ↔
    r.isCanceled 0 = false ∧ AreFound r settings checks is := by
  have hpath : (r.settingsPath == "") = false := by
    rw [Bool.eq_false_iff]
    intro hempty
    obtain ⟨bytes, hread, -⟩ := h.read
    rw [beq_iff_eq.1 hempty] at hread
    cases hread
  rw [audit, hpath, if_neg Bool.false_ne_true, ← @areFound_iff r settings is fun c => lineOf d r.settingsPath c.key]
  rcases r.isCanceled 0
  · rw [if_neg Bool.false_ne_true, h.load_eq]
    dsimp only
    rcases runChecks (fun c => c.run r settings (lineOf d r.settingsPath c.key)) checks with ⟨log, f | found⟩
    · simp [AuditTrace.batches, Except.map]
    · simp [AuditTrace.batches, Except.map]
  · simp [AuditTrace.batches]

/-- The key and the value that a fix of an issue writes. -/
def edit (i : Issue) : String × String := (i.properties.getD 0 "", i.properties.getD 2 "")

/-- Whether the settings of every text that setting some values in turn writes mirror the document
that was written, and the one that is read. -/
def rereads : List (String × String) → Yaml.Document → Bool
  | [], _ => true
  | (key, value) :: edits, doc =>
    (doc.setAt (keyParts key) value).toOption.all fun doc' =>
      (Yaml.settingOfBytes (Text.toBytes doc'.render)).toOption.any fun settings =>
        (readDocument (Text.toBytes doc'.render)).toOption.any fun doc'' =>
          mirrors settings doc' && mirrors settings doc'' && rereads edits doc''

/-- Whether an issue is what a check finds: its value is there, and the recommended one passes. -/
structure IsFindingOf (r : AuditRequest) (settings : Setting) (c : Check) (i : Issue) : Prop where
  mem : c ∈ checks
  id : i.descriptorId = c.id
  path : ∃ l, i.location = some l ∧ l.path = r.settingsPath
  isSome : (settings.find? c.key).isSome
  properties : ∃ old text, i.properties = [c.key, old, text] ∧ c.test.verdict r (scalarSetting "" text) = .ok none

lemma AreFound.exists_isFindingOf (h : AreFound r settings checks (is.map unplaced)) (hr : HasLimits r)
    (hi : i ∈ is) : ∃ c, IsFindingOf r settings c i := by
  obtain ⟨hall, heq⟩ := h
  obtain ⟨c, hc, hjoin⟩ := mem_filterMap.1 (heq ▸ mem_map_of_mem hi)
  obtain ⟨x, hx⟩ := hall c hc
  rw [hx] at hjoin
  obtain rfl : x = some (unplaced i) := hjoin
  obtain ⟨value, verdict, hvalue, hverdict, hid, hproperties, hlocation⟩ := exists_of_found hx
  refine ⟨c, hc, hid, ?_, by rw [hvalue]; rfl, value.toText, _, hproperties, verdict_recommended hr hc hverdict⟩
  obtain ⟨l, hl, hplace⟩ := map_eq_some_iff.1 hlocation
  exact ⟨l, hl, congrArg Location.path hplace⟩

/-- A finding can be fixed. Its check passes then, and every other check finds what it found. -/
lemma Holds.exists_fix (h : Holds r d settings doc) (hfound : AreFound r settings checks is)
    (hi : IsFindingOf r settings c i) {edits : List (String × String)} (hrereads : rereads (edit i :: edits) doc) :
    ∃ d' settings' doc', Setting.fix i d = .ok d' ∧ Holds r d' settings' doc' ∧ rereads edits doc' ∧
      AreFound r settings' checks (is.filter (·.descriptorId != c.id)) ∧
      ∀ c' j, IsFindingOf r settings c' j → IsFindingOf r settings' c' j := by
  obtain ⟨bytes, hread, hdoc, -⟩ := h.read
  obtain ⟨l, hl, hpath⟩ := hi.path
  obtain ⟨old, text, hproperties, hpasses⟩ := hi.properties
  have hmirrors := mirrors_iff.1 h.mirrors
  obtain ⟨doc', hset, hself, hother⟩ :=
    exists_setAt hi.mem (by rw [← hmirrors c hi.mem, isSome_map]; exact hi.isSome) text
  have hedit : edit i = (c.key, text) := by rw [edit, hproperties]; rfl
  rw [hedit, rereads, hset] at hrereads
  obtain ⟨settings', hsettings', hrereads⟩ := (Option.any_eq_true _ _).1 hrereads
  obtain ⟨doc'', hdoc'', hrereads⟩ := (Option.any_eq_true _ _).1 hrereads
  rw [Bool.and_eq_true, Bool.and_eq_true] at hrereads
  obtain ⟨⟨hmirrors', hmirrors''⟩, hrest⟩ := hrereads
  obtain ⟨d', hwrite, hd', hread'⟩ := h.isTree.exists_write hread (Text.toBytes doc'.render)
  have hfix : Setting.fix i d = .ok d' := by
    simp only [Setting.fix, hl, hproperties, hpath, h.isYaml, Bool.not_true, Bool.false_eq_true, if_false, hread,
      Failure.ofIo, bind, Except.bind, hdoc, hset, hwrite]
  have hholds : Holds r d' settings' doc'' :=
    ⟨hd', h.isYaml, ⟨_, hread', Disk.eq_ok_of_toOption hdoc'', Disk.eq_ok_of_toOption hsettings'⟩, hmirrors''⟩
  rw [mirrors_iff] at hmirrors'
  have hnew : (settings'.find? c.key).map seen = some (seen (scalarSetting "" text)) := (hmirrors' c hi.mem).trans hself
  have hold (c' : Check) (hc' : c' ∈ checks) (hne : c' ≠ c) :
      (settings'.find? c'.key).map seen = (settings.find? c'.key).map seen := by
    rw [hmirrors' c' hc', hother c' hc' hne, hmirrors c' hc']
  refine ⟨d', settings', doc'', hfix, hholds, hrest, ?_, fun c' j hj => ⟨hj.mem, hj.id, hj.path, ?_, hj.properties⟩⟩
  · exact hfound.filter hi.mem (found_of_verdict hnew hpasses) fun c' hc' hne => found_congr (hold c' hc' hne)
  · by_cases hne : c' = c
    · rw [hne, ← isSome_map (f := seen), hnew]
      rfl
    · rw [← isSome_map (f := seen), hold c' hj.mem hne, isSome_map]
      exact hj.isSome

/-- Fixing issues in turn, among which there is one for everything that is found, leaves nothing to
find. -/
lemma Holds.exists_fixes (h : Holds r d settings doc) (hlive : r.isCanceled 0 = false) {order : List Issue}
    (hfound : AreFound r settings checks is) (horder : ∀ i ∈ order, ∃ c, IsFindingOf r settings c i)
    (hcover : ∀ j ∈ is, ∃ i ∈ order, i.descriptorId = j.descriptorId) (hrereads : rereads (order.map edit) doc) :
    ∃ d', order.foldlM (fun d i => Setting.fix i d) d = .ok d' ∧ (audit r d').batches = [[]] := by
  induction order generalizing d settings doc is with
  | nil =>
    obtain rfl : is = [] := eq_nil_iff_forall_not_mem.2 fun j hj => by simpa using hcover j hj
    have hbatches := h.batches_audit_iff.2 ⟨hlive, hfound⟩
    exact ⟨d, rfl, by simpa [map_eq_cons_iff] using hbatches⟩
  | cons i order ih =>
    obtain ⟨c, hi⟩ := horder i mem_cons_self
    obtain ⟨d', settings', doc', hfix, h', hrest, hfound', hfindings⟩ := h.exists_fix hfound hi hrereads
    have horder' : ∀ j ∈ order, ∃ c, IsFindingOf r settings' c j :=
      fun j hj => (horder j (mem_cons_of_mem _ hj)).imp fun c' hj => hfindings c' j hj
    refine (ih h' hfound' horder' (fun j hj => ?_) hrest).imp fun d'' hfixes => ⟨?_, hfixes.2⟩
    · rw [mem_filter, bne_iff_ne, ← hi.id] at hj
      obtain ⟨k, hk, hid⟩ := hcover j hj.1
      rcases mem_cons.1 hk with rfl | hk
      · exact absurd hid.symm hj.2
      · exact ⟨k, hk, hid⟩
    · rw [foldlM_cons, hfix]
      exact hfixes.1

/-- Where the settings of a file mirror its document, and go on to do so, fixing a finding of the
audit removes it and leaves the others, their lines aside, and fixing all of them, in any order,
leaves none. A fix that fails changes no file. -/
theorem audit_of_fix (r : AuditRequest) (d : Disk) (bytes : Bytes) (settings : Setting) (doc : Yaml.Document)
    (issues : List Issue) (hd : d.IsTree) (hyaml : isYamlPath r.settingsPath = true) (hr : HasLimits r)
    (hread : d.read r.settingsPath = .ok bytes) (hdoc : readDocument bytes = .ok doc)
    (hsettings : Yaml.settingOfBytes bytes = .ok settings) (hmirrors : mirrors settings doc = true)
    (haudit : (audit r d).batches = [issues]) :
    (∀ i ∈ issues, rereads [edit i] doc = true → ∃ d' issues', Setting.fix i d = .ok d' ∧
      (audit r d').batches = [issues'] ∧
      issues'.map unplaced = (issues.map unplaced).filter (·.descriptorId != i.descriptorId)) ∧
    (∀ order : List Issue, order.Perm issues → rereads (order.map edit) doc = true →
      ∃ d', order.foldlM (fun d i => Setting.fix i d) d = .ok d' ∧ (audit r d').batches = [[]]) ∧
    ∀ (a : Auditor) report i f, Setting.fix i d = .error f →
      (∀ id, ∀ fixer ∈ (a.catalog.entry? id).bind (·.fixer), fixer = Setting.fix) → (a.fix report i d).2 = d := by
  have h : Holds r d settings doc := ⟨hd, hyaml, ⟨bytes, hread, hdoc, hsettings⟩, hmirrors⟩
  obtain ⟨hlive, hfound⟩ : r.isCanceled 0 = false ∧ AreFound r settings checks (issues.map unplaced) :=
    h.batches_audit_iff.1 (by rw [haudit]; rfl)
  refine ⟨fun i hi hrereads => ?_, fun order horder hrereads => ?_, fun a report i f hfix hfixers => ?_⟩
  · obtain ⟨c, hi⟩ := hfound.exists_isFindingOf hr hi
    obtain ⟨d', settings', doc', hfix, h', -, hfound', -⟩ := h.exists_fix hfound hi hrereads
    obtain ⟨issues', hbatches, heq⟩ := map_eq_singleton_iff.1 (h'.batches_audit_iff.2 ⟨hlive, hfound'⟩)
    exact ⟨d', issues', hfix, hbatches, hi.id ▸ heq⟩
  · refine h.exists_fixes hlive hfound (fun i hi => hfound.exists_isFindingOf hr (horder.mem_iff.1 hi)) (fun j hj => ?_)
      hrereads
    obtain ⟨i, hi, rfl⟩ := List.mem_map.1 hj
    exact ⟨i, horder.mem_iff.2 hi, rfl⟩
  · rw [Auditor.fix]
    split
    · rfl
    rcases a.catalog.lookup i.descriptorId with _ | descriptor
    · rfl
    dsimp only
    rcases hfixer : (a.catalog.entry? descriptor.id).bind (·.fixer) with _ | fixer
    · rfl
    · rw [hfixers _ fixer hfixer]
      dsimp only
      rw [hfix]

/-- A request for an audit of one settings file, with the thresholds as they are registered. -/
def settingsRequest : AuditRequest where
  settingsPath := "s.yaml"
  catalog := (Catalog.empty.registerAll Builtin.settingsDescriptors).1
  params := thresholds.foldl (fun p x => p.register x.1 x.2) Params.empty

def settingsDisk (text : String) : Disk where
  nodes := [(["s.yaml"], .file text.toUTF8.data.toList)]

def ids (t : AuditTrace) : List (List String) := t.batches.map (·.map (·.descriptorId))

lemma isTree_settingsDisk (text : String) : (settingsDisk text).IsTree where
  cwd := rfl
  parent p n hp := by
    obtain _ | ⟨name, _ | ⟨_, _⟩⟩ := p
    · rfl
    · rfl
    · simp [settingsDisk, Disk.at?, lookup_cons] at hp

lemma hasLimits_settingsRequest : HasLimits settingsRequest := by
  have hall : ∀ x ∈ thresholds, ((settingsRequest.params.getFor x.1 settingsRequest.platform).toOption.all
      (Word.fitsSigned 64 ·)) = true := by decide +kernel
  intro x hx limit hlimit
  simpa [hlimit, Except.toOption] using hall x hx

lemma eq_ok_of_isSome {α : Type} [Inhabited α] {x : Except Yaml.Fault α} (h : x.toOption.isSome) :
    x = .ok x.toOption.get! := by
  cases x
  · cases h
  · rfl

lemma batches_eq_of_length {t : AuditTrace} (h : t.batches.length = 1) : t.batches = [t.issues] := by
  obtain ⟨issues, h⟩ := length_eq_one_iff.1 h
  rw [AuditTrace.issues, h, flatten_singleton]

/-- Fixing the later of two findings first leaves the other one to be fixed. -/
theorem audit_of_fix_disabled :
    let d := settingsDisk "gc:\n  incremental: false\nbuild:\n  strip_engine_code: false\n"
    ids (audit settingsRequest d) = [["SET0002", "SET0003"]] ∧
      ∃ d', (audit settingsRequest d).issues.reverse.foldlM (fun d i => Setting.fix i d) d = .ok d' ∧
        (audit settingsRequest d').batches = [[]] := by
  intro d
  exact ⟨by decide +kernel, (audit_of_fix settingsRequest d _ _ _ _ (isTree_settingsDisk _) (by decide +kernel)
    hasLimits_settingsRequest rfl (eq_ok_of_isSome (by decide +kernel)) (eq_ok_of_isSome (by decide +kernel))
    (by decide +kernel) (batches_eq_of_length (by decide +kernel))).2.1 _ (List.reverse_perm _) (by decide +kernel)⟩

/-- Where the texture quality is an alias of the timestep, raising the one makes the other too
high. -/
theorem fix_aliased :
    let d := settingsDisk "time:\n  fixed_timestep_ms: &n 1\nquality:\n  max_texture_quality_level: *n\n"
    ids (audit settingsRequest d) = [["SET0001"]] ∧
      ((audit settingsRequest d).issues.foldlM (fun d i => Setting.fix i d) d).toOption.map
        (fun d => ids (audit settingsRequest d)) = some [["SET0004"]] := by
  decide +kernel

end Analyzer.Settings

end BytecodeAudit
