import BytecodeAudit.Bytecode.Codec
import BytecodeAudit.Proofs.Disk.Spelling

/-!
# Files that are saved

Saving a file makes the directories above it and then writes it. It is there afterwards, and every
file that could be read before and has another place reads as before (`IsTree.read_of_replaceFile`).
A path that differs in its extension only names a place in the same directory
(`exists_place_beside`), so what stands there is found or missing, never out of reach.
-/

namespace BytecodeAudit

open List

namespace Path

/-- Whether a text behind the last slash of a path makes a name of what stands between them. -/
structure IsEnding (ending : String) : Prop where
  slash_notMem : '/' ∉ ending.toList
  two_lt_length : 2 < ending.length

lemma IsEnding.isName {ending : String} (h : IsEnding ending) {front : String} (hfront : '/' ∉ front.toList) :
    IsName (front ++ ending) := by
  have hlength := h.two_lt_length
  have hne : ∀ name : String, name.length ≤ 2 → front ++ ending ≠ name := by
    rintro name hname rfl
    rw [String.length_append] at hname
    omega
  refine ⟨fun hslash => ?_, hne _ (by decide), hne _ (by decide), hne _ (by decide)⟩
  rw [String.toList_append, mem_append] at hslash
  exact hslash.elim hfront h.slash_notMem

lemma exists_splitOn_append {a : Char} (xs : List Char) :
    ∃ init front, a ∉ front ∧ ∀ ys : List Char, a ∉ ys → (xs ++ ys).splitOn a = init ++ [front ++ ys] := by
  induction xs with
  | nil => exact ⟨[], [], not_mem_nil, fun ys hys => splitOn_eq_singleton hys⟩
  | cons x xs ih =>
    obtain ⟨init, front, hfront, hsplit⟩ := ih
    by_cases hx : (x == a) = true
    · refine ⟨[] :: init, front, hfront, fun ys hys => ?_⟩
      rw [cons_append, splitOn_cons_eq_if_modifyHead, if_pos hx, hsplit ys hys, cons_append]
    -- another character joins the first part, which is the last one if there is no other
    cases init with
    | nil =>
      refine ⟨[], x :: front, ?_, fun ys hys => ?_⟩
      · rw [mem_cons, not_or]
        exact ⟨fun heq => hx (beq_iff_eq.2 heq.symm), hfront⟩
      · rw [cons_append, splitOn_cons_eq_if_modifyHead, if_neg hx, hsplit ys hys]
        rfl
    | cons zs init =>
      refine ⟨(x :: zs) :: init, front, hfront, fun ys hys => ?_⟩
      rw [cons_append, splitOn_cons_eq_if_modifyHead, if_neg hx, hsplit ys hys]
      rfl

lemma exists_elements_append (stem : String) : ∃ init front, '/' ∉ front.toList ∧
      ∀ ending, IsEnding ending → elements (stem ++ ending) = init ++ [front ++ ending] := by
  obtain ⟨init, front, hfront, hsplit⟩ := exists_splitOn_append (a := '/') stem.toList
  refine ⟨init.map String.ofList, String.ofList front, by rwa [String.toList_ofList], fun ending h => ?_⟩
  rw [elements, String.toList_append, hsplit _ h.slash_notMem, map_append, map_singleton,
    String.ofList_append, String.ofList_toList]

end Path

namespace Disk

variable {d d' : Disk} {content : Bytes} {path other ending stem : String} {es : List String} {p q : Place}

/-! ### What stands beside a file -/

lemma exists_follow_cons {e : String} (hes : es ≠ []) (h : d.follow p (e :: es) = .ok q) :
    ∃ p', ∀ fs, fs ≠ [] → d.follow p (e :: fs) = d.follow p' fs := by
  by_cases hdot : (e == "" || e == ".") = true
  · refine ⟨p, fun fs _ => ?_⟩
    simp only [follow, hdot, if_true] at h ⊢
    split
    · rename_i c hc
      rw [hc] at h
      cases h
    · rfl
  by_cases hup : (e == "..") = true
  · refine ⟨p.dropLast, fun fs _ => ?_⟩
    simp only [follow, if_neg hdot, if_pos hup] at h ⊢
    split
    · rename_i c hc
      rw [hc] at h
      cases h
    · rfl
  refine ⟨p ++ [e], fun fs hfs => ?_⟩
  have hempty : ∀ gs : List String, gs ≠ [] → ¬ gs.isEmpty = true := fun gs hgs => by simpa using hgs
  simp only [follow, if_neg hdot, if_neg hup, if_neg (hempty es hes), if_neg (hempty fs hfs)] at h ⊢
  rcases hp : d.at? p with _ | c | _
  · rw [hp] at h
    cases h
  · rw [hp] at h
    cases h
  rcases hn : d.at? (p ++ [e]) with _ | n
  · simp only [hp, hn] at h
    cases h
  · rfl

lemma exists_follow_append {name : String} (hname : Path.IsName name) (h : d.follow p (es ++ [name]) = .ok q) :
    ∃ parent, d.at? parent = some .directory ∧
      ∀ name', Path.IsName name' → d.follow p (es ++ [name']) = .ok (parent ++ [name']) := by
  induction es generalizing p with
  | nil =>
    rw [nil_append, follow_name hname] at h
    rcases hp : d.at? p with _ | c | _
    · rw [hp] at h
      cases h
    · rw [hp] at h
      cases h
    · refine ⟨p, hp, fun name' hname' => ?_⟩
      rw [nil_append, follow_name hname', hp]
  | cons e es ih =>
    have hne : ∀ x : String, es ++ [x] ≠ [] := fun x => concat_ne_nil x es
    obtain ⟨p', hfollow⟩ := exists_follow_cons (hne name) h
    rw [cons_append, hfollow _ (hne name)] at h
    obtain ⟨parent, hparent, hnames⟩ := ih h
    refine ⟨parent, hparent, fun name' hname' => ?_⟩
    rw [cons_append, hfollow _ (hne name'), hnames name' hname']

lemma place_append (h : Path.IsEnding ending) : d.place (stem ++ ending) =
      d.follow (if Path.isAbsolute stem then [] else d.cwd) (Path.elements (stem ++ ending)) := by
  have hlength := h.two_lt_length
  have hne : ¬ (stem ++ ending == "") = true := by
    intro hempty
    have hzero := congrArg String.length (beq_iff_eq.1 hempty)
    rw [String.length_append, String.length_empty] at hzero
    omega
  have habsolute : Path.isAbsolute (stem ++ ending) = Path.isAbsolute stem := by
    rw [Path.isAbsolute, Path.isAbsolute, String.toList_append]
    cases stem.toList with
    | cons c cs => rfl
    | nil =>
      rw [nil_append]
      -- the first character of an ending is no slash
      refine Bool.eq_iff_iff.2 ⟨fun hhead => ?_, by rintro ⟨⟩⟩
      exact absurd (mem_of_head? (beq_iff_eq.1 hhead)) h.slash_notMem
  rw [place, if_neg hne, habsolute]

section

variable (hending : Path.IsEnding ending)
include hending

lemma exists_place_beside (h : d.place (stem ++ ending) = .ok p) : ∃ parent front, d.at? parent = some .directory ∧
      ∀ other, Path.IsEnding other → d.place (stem ++ other) = .ok (parent ++ [front ++ other]) := by
  obtain ⟨init, front, hfront, helements⟩ := Path.exists_elements_append stem
  rw [place_append hending, helements _ hending] at h
  obtain ⟨parent, hparent, hnames⟩ := exists_follow_append (hending.isName hfront) h
  refine ⟨parent, front, hparent, fun other hother => ?_⟩
  rw [place_append hother, helements _ hother, hnames _ (hother.isName hfront)]

lemma place_ne_of_ending_ne (hother : Path.IsEnding other) (hne : ending ≠ other)
    (hp : d.place (stem ++ ending) = .ok p) (hq : d.place (stem ++ other) = .ok q) : p ≠ q := by
  obtain ⟨parent, front, -, hplace⟩ := exists_place_beside hending hp
  obtain rfl := Except.ok.inj (hp.symm.trans (hplace _ hending))
  obtain rfl := Except.ok.inj (hq.symm.trans (hplace _ hother))
  intro heq
  have hnames : front ++ ending = front ++ other := singleton_inj.1 (append_cancel_left heq)
  exact hne (String.append_right_inj front |>.1 hnames)

lemma read_beside_of_not_isPresent (hother : Path.IsEnding other)
    (hp : d.place (stem ++ ending) = .ok p) (h : d.isPresent (stem ++ other) = false) :
    d.read (stem ++ other) = .error ⟨"open", stem ++ other, .noSuchFile⟩ := by
  obtain ⟨parent, front, -, hplace⟩ := exists_place_beside hending hp
  have hfind : d.find (stem ++ other) = .error .noSuchFile := by
    have hplace := hplace other hother
    rcases hat : d.at? (parent ++ [front ++ other]) with _ | n
    · simp only [find, hplace, bind, Except.bind, hat]
    · simp only [isPresent, find, hplace, bind, Except.bind, hat] at h
      cases h
  rw [read, hfind]

end

/-! ### New directories -/

lemma lookup_map_const {α β : Type} [BEq α] [LawfulBEq α] (keys : List α) (v : β) (a : α) :
    (keys.map fun k => (k, v)).lookup a = if keys.contains a then some v else none := by
  induction keys with
  | nil => rfl
  | cons k keys ih =>
    rw [map_cons, lookup_cons, ih, contains_cons]
    cases a == k <;> rfl

lemma at?_empty (cwd p : Place) : (empty cwd).at? p = if p <+: cwd then some .directory else none := by
  by_cases hp : p = []
  · subst hp
    rw [if_pos nil_prefix]
    rfl
  have hnodes : (empty cwd).nodes =
      ((range cwd.length).map fun i => cwd.take (i + 1)).map fun k => (k, DiskNode.directory) := by
    rw [map_map]
    rfl
  rw [at?_of_ne_nil _ hp, hnodes, lookup_map_const]
  refine if_congr ?_ rfl rfl
  rw [contains_iff_mem, mem_map]
  constructor
  · rintro ⟨i, -, rfl⟩
    exact take_prefix _ _
  · intro hbelow
    have hpos : 0 < p.length := length_pos_iff.2 hp
    have hle := hbelow.length_le
    refine ⟨p.length - 1, mem_range.2 (by omega), ?_⟩
    rw [Nat.sub_add_cancel hpos]
    exact (prefix_iff_eq_take.1 hbelow).symm

lemma isTree_empty (cwd : Place) : (empty cwd).IsTree where
  cwd := by
    rw [at?_empty]
    exact if_pos (prefix_refl cwd)
  parent p n hp := by
    rw [at?_empty] at hp ⊢
    obtain ⟨hbelow, -⟩ := Option.ite_none_right_eq_some.1 hp
    have hlast := dropLast_prefix p
    exact if_pos (hlast.trans hbelow)

lemma IsPart.trans {d'' : Disk} (h : IsPart d d') (h' : IsPart d' d'') : IsPart d d'' where
  cwd := h.cwd.trans h'.cwd
  at?_eq_some p n hp := h'.at?_eq_some p n (h.at?_eq_some p n hp)
  parent p n hp := (h.parent p n hp).trans (h'.parent p n (h.at?_eq_some p n hp))

lemma IsTree.put_directory (hd : d.IsTree) (hne : p ≠ []) (hp : d.at? p = none)
    (hparent : d.at? p.dropLast = some .directory) : (d.put p .directory).IsTree ∧ IsPart d (d.put p .directory) := by
  have hsome : ∀ q n, d.at? q = some n → (d.put p .directory).at? q = some n := by
    intro q n hq
    rw [at?_put d hne, if_neg, hq]
    rintro rfl
    rw [hp] at hq
    cases hq
  refine ⟨⟨hsome _ _ hd.cwd, fun q n hq => ?_⟩, ⟨rfl, hsome, fun q n hq => ?_⟩⟩
  · rw [at?_put d hne] at hq
    by_cases hqp : q = p
    · exact hsome _ _ (hqp ▸ hparent)
    · rw [if_neg hqp] at hq
      exact hsome _ _ (hd.parent q n hq)
  · rw [hd.parent q n hq, hsome _ _ (hd.parent q n hq)]

lemma IsTree.of_makePlace (hd : d.IsTree) {done : Place} (hdone : d.at? done = some .directory)
    (h : d.makePlace done es = .ok d') : d'.IsTree ∧ IsPart d d' := by
  induction es generalizing d done with
  | nil => exact Except.ok.inj h ▸ ⟨hd, isPart_refl d⟩
  | cons e es ih =>
    have hne : done ++ [e] ≠ [] := concat_ne_nil e done
    rw [makePlace] at h
    rcases hp : d.at? (done ++ [e]) with _ | c | _
    · rw [hp] at h
      obtain ⟨htree, hpart⟩ := hd.put_directory hne hp (by rwa [dropLast_concat])
      have hnew : (d.put (done ++ [e]) .directory).at? (done ++ [e]) = some .directory := by
        rw [at?_put d hne, if_pos rfl]
      obtain ⟨htree', hpart'⟩ := ih htree hnew h
      exact ⟨htree', hpart.trans hpart'⟩
    · rw [hp] at h
      cases h
    · rw [hp] at h
      exact ih hd hp h

lemma IsTree.of_makeDirectories (hd : d.IsTree) (h : d.makeDirectories path = .ok d') : d'.IsTree ∧ IsPart d d' := by
  unfold makeDirectories at h
  rcases hmake : d.makePlace [] (d.plainPlace path) with reason | e
  · rw [hmake] at h
    cases h
  · rw [hmake] at h
    cases h
    exact hd.of_makePlace d.at?_nil hmake

/-! ### Saving -/

lemma exists_of_replaceFile (h : d.replaceFile path content = .ok d') :
    ∃ e, d.makeDirectories (Path.directory path) = .ok e ∧ e.write path content = .ok d' := by
  unfold replaceFile at h
  rcases hmake : d.makeDirectories (Path.directory path) with f | e
  · rw [hmake] at h
    cases h
  rcases hwrite : e.write path content with f | e'
  · simp only [hmake, Failure.ofIo, bind, Except.bind, hwrite] at h
    cases h
  · simp only [hmake, Failure.ofIo, bind, Except.bind, hwrite] at h
    exact ⟨e, rfl, hwrite.trans (congrArg Except.ok (Except.ok.inj h))⟩

lemma eq_ok_of_toOption {ε α : Type} {x : Except ε α} {a : α} (h : x.toOption = some a) : x = .ok a := by
  rcases x with e | b
  · cases h
  · exact congrArg Except.ok (Option.some.inj h)

lemma read_eq_ok_iff : d.read path = .ok content ↔ ∃ p, d.place path = .ok p ∧ d.at? p = some (.file content) := by
  constructor
  · intro h
    obtain ⟨p, hp, hat⟩ := toOption_read_eq_some_iff.1 (congrArg Except.toOption h)
    exact ⟨p, eq_ok_of_toOption hp, hat⟩
  · rintro ⟨p, hp, hat⟩
    exact eq_ok_of_toOption (toOption_read_eq_some_iff.2 ⟨p, congrArg Except.toOption hp, hat⟩)

lemma IsTree.place_of_replaceFile (hd : d.IsTree) (h : d.replaceFile path content = .ok d')
    (hq : d.place other = .ok q) : d'.place other = .ok q := by
  obtain ⟨e, hmake, hwrite⟩ := exists_of_replaceFile h
  obtain ⟨he, hpart⟩ := hd.of_makeDirectories hmake
  obtain ⟨p, -, hchange, -⟩ := he.changesFile_write hwrite
  have hmade := hpart.place_eq_some he (congrArg Except.toOption hq)
  exact eq_ok_of_toOption ((hchange.place_eq he other).trans hmade)

lemma IsTree.read_of_replaceFile (hd : d.IsTree) (h : d.replaceFile path content = .ok d') :
    d'.IsTree ∧ d'.read path = .ok content ∧
      ∀ other bytes p q, d'.place path = .ok p → d'.place other = .ok q → p ≠ q → d.read other = .ok bytes →
        d'.read other = .ok bytes := by
  obtain ⟨e, hmake, hwrite⟩ := exists_of_replaceFile h
  obtain ⟨he, hpart⟩ := hd.of_makeDirectories hmake
  obtain ⟨p, hp, hchange, hat⟩ := he.changesFile_write hwrite
  have hplace : d'.place path = .ok p := eq_ok_of_toOption ((hchange.place_eq he path).trans hp)
  refine ⟨hchange.isTree, read_eq_ok_iff.2 ⟨p, hplace, hat⟩, fun other bytes p' q hp' hq hne hread => ?_⟩
  obtain rfl := Except.ok.inj (hplace.symm.trans hp')
  have hmade : (e.read other).toOption = some bytes := hpart.read_eq_some he (congrArg Except.toOption hread)
  have hother : (e.place other).toOption ≠ some p := by
    rw [← hchange.place_eq he, hq]
    exact fun heq => hne (Option.some.inj heq).symm
  exact eq_ok_of_toOption ((hchange.read_eq he hother).trans hmade)

end Disk

end BytecodeAudit
