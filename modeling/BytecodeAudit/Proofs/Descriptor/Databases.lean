import Mathlib.Data.List.GetD
import Mathlib.Order.PiLex
import BytecodeAudit.Proofs.Auditor.Setup

/-!
# Descriptors and their databases

Loading a database stops at the first entry that cannot be used. An entry that is not valid is
refused; loading breaks down at a null (`Failure.nullEntry`), exactly if the entries before the
first null are valid (`ReachesNull`). An auditor breaks down with the first of its databases that
does.
-/

namespace BytecodeAudit

open List

namespace Failure

variable {α β : Type} {e : Failure}

lemma bind_eq_error_iff {x : Except Failure α} {f : α → Except Failure β} :
    (x >>= f) = .error e ↔ x = .error e ∨ ∃ a, x = .ok a ∧ f a = .error e := by
  cases x <;> simp [bind, Except.bind]

lemma within_ne_nullEntry (activity : String) (x : Except Failure α) : within activity x ≠ .error .nullEntry := by
  cases x <;> simp [within]

lemma foldlM_eq_error_iff {f : α → β → Except Failure α} {xs : List β} {a : α} : xs.foldlM f a = .error e ↔
      ∃ before x after b, xs = before ++ x :: after ∧ before.foldlM f a = .ok b ∧ f b x = .error e := by
  induction xs generalizing a with
  | nil => simp [pure, Except.pure]
  | cons x xs ih =>
    rw [foldlM_cons, bind_eq_error_iff]
    constructor
    · rintro (hx | ⟨c, hc, h⟩)
      · exact ⟨[], x, xs, a, rfl, rfl, hx⟩
      · obtain ⟨before, y, after, b, rfl, hbefore, hy⟩ := ih.1 h
        refine ⟨x :: before, y, after, b, rfl, ?_, hy⟩
        rw [foldlM_cons, hc]
        exact hbefore
    · rintro ⟨_ | ⟨x', before⟩, y, after, b, hxs, hbefore, hy⟩
      · cases hxs
        exact .inl (Except.ok.inj hbefore ▸ hy)
      · cases hxs
        rw [foldlM_cons] at hbefore
        obtain ⟨c, hc, hbefore⟩ := exists_of_bind_eq_ok hbefore
        exact .inr ⟨c, hc, ih.2 ⟨before, y, after, b, rfl, hbefore, hy⟩⟩

end Failure

open Failure

namespace DescriptorDatabase

/-- Whether entries are valid descriptors up to a null one. -/
def HaveNull (entries : List (Option Descriptor)) : Prop :=
  ∃ valid rest, entries = map some valid ++ none :: rest ∧ ∀ d ∈ valid, d.validate = .ok ()

/-- Whether loading comes to a null entry: the version fits, and all entries before the null one are
valid. -/
def ReachesNull (db : DescriptorDatabase) : Prop := db.version = supportedVersion ∧ HaveNull db.descriptors

lemma validate_ne_nullEntry (d : Descriptor) : d.validate ≠ .error .nullEntry := by
  rw [Descriptor.validate]
  repeat' split
  all_goals simp

lemma check_map_append {valid : List Descriptor} (hvalid : ∀ d ∈ valid, d.validate = .ok ())
    (rest : List (Option Descriptor)) : check (valid.map some ++ rest) = (check rest).map (valid ++ ·) := by
  induction valid with
  | nil => cases h : check rest <;> simp [h, Except.map]
  | cons d ds ih =>
    obtain ⟨hd, hds⟩ := forall_mem_cons.1 hvalid
    rw [map_cons, cons_append, check, hd, ih hds]
    cases check rest <;> rfl

lemma exists_valid_append (entries : List (Option Descriptor)) :
    ∃ valid rest, entries = map some valid ++ rest ∧ (∀ d ∈ valid, d.validate = .ok ()) ∧
      ∀ x ∈ rest.head?, ∀ d, x = some d → ∃ f, d.validate = .error f := by
  induction entries with
  | nil => exact ⟨[], [], rfl, nofun, by simp⟩
  | cons x entries ih =>
    rcases x with _ | d
    · exact ⟨[], none :: entries, rfl, nofun, by simp⟩
    · rcases hd : d.validate with f | u
      · exact ⟨[], some d :: entries, rfl, nofun, by simp [hd]⟩
      · obtain ⟨valid, rest, rfl, hvalid, hrest⟩ := ih
        exact ⟨d :: valid, rest, rfl, forall_mem_cons.2 ⟨hd, hvalid⟩, hrest⟩

variable {entries : List (Option Descriptor)}

lemma check_eq_nullEntry_iff :
    check entries = .error .nullEntry ↔ HaveNull entries := by
  constructor
  · intro h
    obtain ⟨valid, rest, rfl, hvalid, hrest⟩ := exists_valid_append entries
    rw [check_map_append hvalid] at h
    rcases rest with _ | ⟨_ | d, rest⟩
    · cases h
    · exact ⟨valid, rest, rfl, hvalid⟩
    · obtain ⟨f, hf⟩ := hrest _ rfl d rfl
      rw [check, hf] at h
      exact absurd (hf.trans (congrArg _ (Except.error.inj h))) (validate_ne_nullEntry d)
  · rintro ⟨valid, rest, rfl, hvalid⟩
    rw [check_map_append hvalid]
    rfl

lemma eq_map_of_check {ds : List Descriptor} (h : check entries = .ok ds) :
    entries = ds.map some ∧ ∀ d ∈ ds, d.validate = .ok () := by
  obtain ⟨valid, rest, rfl, hvalid, hrest⟩ := exists_valid_append entries
  rw [check_map_append hvalid] at h
  rcases rest with _ | ⟨_ | d, rest⟩
  · obtain rfl : valid ++ [] = ds := Except.ok.inj h
    rw [append_nil, append_nil]
    exact ⟨rfl, hvalid⟩
  · cases h
  · obtain ⟨f, hf⟩ := hrest _ rfl d rfl
    rw [check, hf] at h
    cases h

lemma parse_ne_nullEntry (bytes : Bytes) : parse bytes ≠ .error .nullEntry := by
  intro h
  unfold parse at h
  extract_lets read at h
  clear_value read
  rcases read with fault | _ | db <;> cases h

lemma load_eq_of_parse {bytes : Bytes} {db : DescriptorDatabase} (h : parse bytes = .ok db)
    (hversion : db.version = supportedVersion) : load bytes = check db.descriptors := by
  rw [load, h]
  show (if (db.version != supportedVersion) = true then _ else _) = _
  rw [hversion, if_neg (by simp)]

lemma exists_of_load {bytes : Bytes} {ds : List Descriptor} (h : load bytes = .ok ds) :
    ∃ db, parse bytes = .ok db ∧ db.version = supportedVersion ∧ check db.descriptors = .ok ds := by
  obtain ⟨db, hdb, h⟩ := exists_of_bind_eq_ok h
  split at h
  · cases h
  · exact ⟨db, hdb, by simp_all, h⟩

lemma load_eq_nullEntry_iff {bytes : Bytes} :
    load bytes = .error .nullEntry ↔ ∃ db, parse bytes = .ok db ∧ db.ReachesNull := by
  constructor
  · intro h
    rcases bind_eq_error_iff.1 h with h | ⟨db, hdb, h⟩
    · exact absurd h (parse_ne_nullEntry bytes)
    · split at h
      · cases h
      · exact ⟨db, hdb, by simp_all, check_eq_nullEntry_iff.1 h⟩
  · rintro ⟨db, hdb, hversion, hnull⟩
    rw [load_eq_of_parse hdb hversion]
    exact check_eq_nullEntry_iff.2 hnull

lemma loadFile_eq_nullEntry_iff {d : Disk} {path : String} : loadFile d path = .error .nullEntry ↔
    ∃ content, d.read path = .ok content ∧ load content = .error .nullEntry := by
  rw [loadFile, Disk.read]
  rcases d.find path with e | ⟨p, content | _⟩
  · simp
  · simp only [Except.ok.injEq, exists_eq_left']
    split
    · next h => simp [h]
    · next h => exact ⟨fun hw => absurd hw (within_ne_nullEntry _ _), fun hl => absurd hl h⟩
  · simp

end DescriptorDatabase

open DescriptorDatabase

lemma Registry.addFile_eq_nullEntry_iff {r : Registry} {d : Disk} {path : String} :
    r.addFile d path = .error .nullEntry ↔ loadFile d path = .error .nullEntry := by
  rw [addFile, bind_eq_error_iff]
  exact or_iff_left fun ⟨_, _, h⟩ => within_ne_nullEntry _ _ h

/-- The registry of the built-in analyzers with the descriptors of some database files. -/
def Auditor.registryWith (config : Config) (files : List String) (d : Disk) : Except Failure Registry :=
  Analyzer.registerAll Analyzer.builtin { params := Params.ofLayers (config.params.map (·.flat)) } >>=
    files.foldlM fun r path => r.addFile d path

lemma Auditor.create_eq_nullEntry_iff {config : Config} {version : String} {cache : Option Cache} {d : Disk} :
    create config Analyzer.builtin version cache d = .error .nullEntry ↔
      ∃ before path after r, config.descriptorFiles = before ++ path :: after ∧
        registryWith config before d = .ok r ∧ loadFile d path = .error .nullEntry := by
  have hfiles : create config Analyzer.builtin version cache d = .error .nullEntry ↔
      registryWith config config.descriptorFiles d = .error .nullEntry := by
    rw [create.eq_def, registryOf, ← bind_assoc, bind_assoc, bind_eq_error_iff]
    refine or_iff_left ?_
    rintro ⟨r, -, h⟩
    rcases bind_eq_error_iff.1 h with h | ⟨_, -, h⟩
    · rcases bind_eq_error_iff.1 h with h | ⟨_, -, h⟩
      · exact within_ne_nullEntry _ _ h
      · cases h
    · cases h
  obtain ⟨catalog, hbuiltin, -⟩ := Analyzer.exists_registerAll (Params.ofLayers (config.params.map (·.flat)))
  simp only [hfiles, registryWith, hbuiltin, bind_eq_error_iff, foldlM_eq_error_iff, Registry.addFile_eq_nullEntry_iff]
  simp [bind, Except.bind]

namespace DescriptorDatabase

/-- Loading a database breaks down exactly at a null entry behind valid ones. Otherwise it is
refused, or all of its entries are valid. Setting up an auditor breaks down exactly with such a
database. -/
theorem load_answers_unless_reachesNull (bytes : Bytes) :
    (load bytes = .error .nullEntry ↔ ∃ db, parse bytes = .ok db ∧ db.ReachesNull) ∧
      (∀ ds, load bytes = .ok ds → (∃ db, parse bytes = .ok db ∧ db.descriptors = ds.map some) ∧
        ∀ d ∈ ds, d.validate = .ok ()) ∧
      ∀ (config : Config) (version : String) (cache : Option Cache) (d : Disk),
        Auditor.create config Analyzer.builtin version cache d = .error .nullEntry ↔
          ∃ before path after r content, config.descriptorFiles = before ++ path :: after ∧
            Auditor.registryWith config before d = .ok r ∧ d.read path = .ok content ∧
            load content = .error .nullEntry := by
  refine ⟨load_eq_nullEntry_iff, fun ds h => ?_, fun config version cache d => ?_⟩
  · obtain ⟨db, hdb, -, hcheck⟩ := exists_of_load h
    obtain ⟨hentries, hvalid⟩ := eq_map_of_check hcheck
    exact ⟨⟨db, hdb, hentries⟩, hvalid⟩
  · simp only [Auditor.create_eq_nullEntry_iff, loadFile_eq_nullEntry_iff, exists_and_left]

/-- The text of a database whose only entry is null. -/
def nullDatabase : String := "version: 1\ndescriptors:\n- null\n"

/-- A null entry is accepted by the parser, and loading breaks down. -/
theorem load_nullDatabase : load nullDatabase.toUTF8.data.toList = .error .nullEntry := by
  have h : (parse nullDatabase.toUTF8.data.toList).toOption = some ⟨1, [none]⟩ := by decide +kernel
  rcases hparse : parse nullDatabase.toUTF8.data.toList with f | db <;> rw [hparse] at h <;> cases h
  exact load_eq_nullEntry_iff.2 ⟨_, hparse, rfl, [], [], rfl, forall_mem_nil _⟩

end DescriptorDatabase

/-! ### Versions

The numbers of a version, continued with zeros, are a sequence, and versions compare as their
sequences do in the lexicographic order (`compares_numbers`). So a descriptor applies to an interval
of versions. -/

namespace Version

def sequence (ns : List Nat) : Lex (ℕ → ℕ) := toLex fun i => ns.getD i 0

/-- The numbers of a version: of each part between dots the decimal number that it starts with, up
to the greatest 64-bit integer, or zero. -/
def numbers (s : String) : Lex (ℕ → ℕ) :=
  sequence ((s.toList.splitOn '.').map fun part =>
    min (Nat.pow 2 63 - 1) (Nat.ofDigitChars 10 (part.takeWhile Char.isDigit) 0))

lemma numbers_eq (s : String) : numbers s = sequence (components s) := by
  have hpart (part : List Char) :
      min (Nat.pow 2 63 - 1) (Nat.ofDigitChars 10 (part.takeWhile Char.isDigit) 0) = component part := by
    simp only [component, Nat.ofDigitChars_eq_foldl, Nat.mul_comm 10]
    rfl
  simp only [numbers, components, hpart]

lemma numbers_append_zero (s : String) : numbers (s ++ ".0") = numbers s := by
  have hsplit : (s ++ ".0").toList.splitOn '.' = s.toList.splitOn '.' ++ [['0']] := by
    rw [String.toList_append]
    exact splitOn_append_cons_self ..
  rw [numbers_eq, numbers_eq, components, components, hsplit, map_append]
  refine congrArg toLex (funext fun i => ?_)
  have hzero : component ['0'] = 0 := by decide
  rcases lt_or_ge i ((s.toList.splitOn '.').map component).length with hi | hi
  · rw [getD_append _ _ _ _ hi]
  · rw [getD_append_right _ _ _ _ hi, getD_eq_default _ _ hi]
    cases i - ((s.toList.splitOn '.').map component).length with
    | zero => exact hzero
    | succ n => rfl

/-! ### The order -/

lemma compares_then (f g : ℕ → ℕ) {o : Ordering}
    (h : o.Compares (toLex fun i => f (i + 1)) (toLex fun i => g (i + 1))) :
    ((Ord.compare (f 0) (g 0)).then o).Compares (toLex f) (toLex g) := by
  have hlt {f g : ℕ → ℕ} (hzero : f 0 = g 0) (h : toLex (fun i => f (i + 1)) < toLex fun i => g (i + 1)) :
      toLex f < toLex g := by
    obtain ⟨i, heq, hlt⟩ := h
    refine ⟨i + 1, fun j hj => ?_, hlt⟩
    cases j with
    | zero => exact hzero
    | succ j => exact heq j (Nat.lt_of_succ_lt_succ hj)
  rcases lt_trichotomy (f 0) (g 0) with hfg | hfg | hfg
  · rw [Nat.compare_eq_lt.2 hfg]
    exact ⟨0, nofun, hfg⟩
  · rw [Nat.compare_eq_eq.2 hfg]
    cases o with
    | lt => exact hlt hfg h
    | eq =>
      refine congrArg toLex (funext fun i => ?_)
      cases i with
      | zero => exact hfg
      | succ i => exact congrFun h i
    | gt => exact hlt hfg.symm h
  · rw [Nat.compare_eq_gt.2 hfg]
    exact ⟨0, nofun, hfg⟩

lemma compares_sequence (xs ys : List Nat) : (compareComponents xs ys).Compares (sequence xs) (sequence ys) := by
  fun_induction compareComponents xs ys with
  | case1 => exact rfl
  | case2 x xs ih => exact compares_then ((x :: xs).getD · 0) ([].getD · 0) ih
  | case3 y ys ih => exact compares_then ([].getD · 0) ((y :: ys).getD · 0) ih
  | case4 x xs y ys ih => exact compares_then ((x :: xs).getD · 0) ((y :: ys).getD · 0) ih

lemma compares_numbers (a b : String) : (compare a b).Compares (numbers a) (numbers b) := by
  rw [compare, numbers_eq, numbers_eq]
  exact compares_sequence ..

lemma compare_eq_of_numbers_eq {a a' b b' : String} (ha : numbers a = numbers a') (hb : numbers b = numbers b') :
    compare a b = compare a' b' :=
  (compares_numbers a b).inj (ha ▸ hb ▸ compares_numbers a' b')

lemma isApplicable_iff {d : Descriptor} {p : Platform} {v : String} (hv : v ≠ "") : d.isApplicable p v = true ↔
      (p = Platform.default ∨ d.platforms = [] ∨ p ∈ d.platforms) ∧
        (d.minVersion = "" ∨ numbers d.minVersion ≤ numbers v) ∧
          (d.maxVersion = "" ∨ numbers v ≤ numbers d.maxVersion) := by
  rw [← (compares_numbers v d.minVersion).ne_lt, ← (compares_numbers v d.maxVersion).ne_gt]
  simp [Descriptor.isApplicable, hv, or_assoc]

/-- Versions are ordered by their numbers, and a descriptor applies to an interval of versions. -/
theorem compare_orders_versions (a b c : String) (d : Descriptor) (p : Platform) :
    (compare a b).Compares (numbers a) (numbers b) ∧ compare b a = (compare a b).swap ∧
      (compare a b ≠ .gt → compare b c ≠ .gt → compare a c ≠ .gt) ∧
      compare (a ++ ".0") b = compare a b ∧ compare a (b ++ ".0") = compare a b ∧
      (a ≠ "" → b ≠ "" → c ≠ "" → compare a b ≠ .gt → compare b c ≠ .gt →
        d.isApplicable p a = true → d.isApplicable p c = true → d.isApplicable p b = true) := by
  have hle (a b : String) : compare a b ≠ .gt ↔ numbers a ≤ numbers b := (compares_numbers a b).ne_gt
  refine ⟨compares_numbers a b, (compares_numbers b a).inj (compares_numbers a b).swap, ?_,
    compare_eq_of_numbers_eq (numbers_append_zero a) rfl, compare_eq_of_numbers_eq rfl (numbers_append_zero b), ?_⟩
  · rw [hle, hle, hle]
    exact le_trans
  · intro ha hb hc hab hbc hda hdc
    rw [hle] at hab hbc
    rw [isApplicable_iff ha] at hda
    rw [isApplicable_iff hc] at hdc
    exact (isApplicable_iff hb).2 ⟨hda.1, hda.2.1.imp_right fun h => h.trans hab, hdc.2.2.imp_right hbc.trans⟩

/-- A descriptor for some releases. -/
def ranged : Descriptor where
  id := "AAA0001"
  title := "Range"
  minVersion := "5.2"
  maxVersion := "6"

theorem compare_orders_versions_release :
    compare "5.2" "5.10.1f1" ≠ .gt ∧ compare "5.10.1f1" "6" ≠ .gt ∧ ranged.isApplicable .ios "5.10.1f1" = true := by
  have hcomponents : components "5.2" = [5, 2] ∧ components "5.10.1f1" = [5, 10, 1] ∧ components "6" = [6] := by decide
  have hlow : compare "5.2" "5.10.1f1" ≠ .gt := by
    simp only [compare, hcomponents, compareComponents]
    decide
  have hhigh : compare "5.10.1f1" "6" ≠ .gt := by
    simp only [compare, hcomponents, compareComponents]
    decide
  have hle := ((compares_numbers _ _).ne_gt.1 hlow).trans ((compares_numbers _ _).ne_gt.1 hhigh)
  obtain ⟨-, -, -, -, -, hinterval⟩ := compare_orders_versions "5.2" "5.10.1f1" "6" ranged .ios
  refine ⟨hlow, hhigh, hinterval (by decide) (by decide) (by decide) hlow hhigh ?_ ?_⟩
  · exact (isApplicable_iff (by decide)).2 ⟨.inr (.inl rfl), .inr le_rfl, .inr hle⟩
  · exact (isApplicable_iff (by decide)).2 ⟨.inr (.inl rfl), .inr hle, .inr le_rfl⟩

end Version

end BytecodeAudit
