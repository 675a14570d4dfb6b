import Mathlib.Data.List.Induction
import Mathlib.Data.List.Infix
import BytecodeAudit.Disk

/-!
# Changes of files and spellings of paths

Writing or removing a file changes what stands at one place. Paths are followed through directories
only, so in a file tree, `IsTree`, this moves no path to another place (`ChangesFile.place_eq`), and
every path that names another place reads as before (`ChangesFile.read_eq`).

The elements that cleaning leaves are reduced: no empty ones, no `.`, and `..` only in front of a
relative path (`isReduced_cleanElements`). In a file tree the spelling of a directory does not
matter: a name joined to it stands right in the directory (`IsTree.place_join`).
-/

namespace BytecodeAudit

namespace Disk

open List Option

variable {p : Place} {path : String} {d d' : Disk} {content : Bytes}

/-! ### Places after a change -/

lemma lookup_filter_key {α β : Type} [BEq α] [LawfulBEq α] (keep : α → Bool) (es : List (α × β)) (a : α) :
    (es.filter fun e => keep e.1).lookup a = if keep a then es.lookup a else none := by
  induction es with
  | nil => simp
  | cons e es ih =>
    obtain ⟨k, v⟩ := e
    rw [filter_cons, lookup_cons]
    by_cases hak : a = k
    · subst hak
      by_cases ha : keep a <;> simp [ha, ih]
    · have hne : (a == k) = false := beq_false_of_ne hak
      by_cases hk : keep k <;> simp [hk, hne, ih, lookup_cons]

lemma at?_nil (d : Disk) : d.at? [] = some .directory := rfl

lemma at?_of_ne_nil (d : Disk) (hp : p ≠ []) : d.at? p = d.nodes.lookup p :=
  if_neg (by simpa using hp)

lemma at?_put (d : Disk) (hp : p ≠ []) (n : DiskNode) (q : Place) :
    (d.put p n).at? q = if q = p then some n else d.at? q := by
  by_cases hq : q = []
  · subst hq
    rw [at?_nil, at?_nil, if_neg (Ne.symm hp)]
  rw [at?_of_ne_nil _ hq, at?_of_ne_nil _ hq, put, lookup_cons, lookup_filter_key (· != p)]
  by_cases hqp : q = p
  · simp [hqp]
  · simp [hqp, beq_false_of_ne hqp]

lemma at?_erase (d : Disk) (hp : p ≠ []) (q : Place) : (d.erase p).at? q = if p <+: q then none else d.at? q := by
  by_cases hq : q = []
  · subst hq
    rw [at?_nil, at?_nil, if_neg fun h => hp (prefix_nil.1 h)]
  rw [at?_of_ne_nil _ hq, at?_of_ne_nil _ hq, erase, lookup_filter_key fun q => !p.isPrefixOf q]
  simp only [← isPrefixOf_iff_prefix]
  cases p.isPrefixOf q <;> rfl

/-! ### File trees -/

/-- Whether everything stands in a directory, and the working directory is one. -/
structure IsTree (d : Disk) : Prop where
  cwd : d.at? d.cwd = some .directory
  parent : ∀ p n, d.at? p = some n → d.at? p.dropLast = some .directory

namespace IsTree

variable {d : Disk}

lemma directory_of_prefix (h : d.IsTree) {p q : Place} {n : DiskNode} (hq : d.at? q = some n)
    (hpq : p <+: q) (hne : p ≠ q) : d.at? p = some .directory := by
  obtain ⟨t, rfl⟩ := hpq
  -- from the end, since `parent` goes up one element at a time
  induction t using reverseRecOn generalizing n with
  | nil => exact absurd (append_nil p).symm hne
  | append_singleton t e ih =>
    have hparent := h.parent _ _ hq
    rw [← append_assoc, dropLast_concat] at hparent
    cases t with
    | nil => simpa using hparent
    | cons x t => exact ih hparent (by simp)

lemma at?_eq_none_of_file (h : d.IsTree) {p q : Place} {c : Bytes} (hp : d.at? p = some (.file c))
    (hpq : p <+: q) (hne : p ≠ q) : d.at? q = none := by
  rcases hq : d.at? q with _ | n
  · rfl
  · have := h.directory_of_prefix hq hpq hne
    rw [hp] at this
    cases this

end IsTree

/-! ### Following paths -/

lemma toOption_follow_cons (hp : d.at? p = some .directory) (e : String) (es : List String) :
    (d.follow p (e :: es)).toOption =
      if e == "" || e == "." then (d.follow p es).toOption
      else if e == ".." then (d.follow p.dropLast es).toOption
      else if es.isEmpty then some (p ++ [e])
      else if d.at? (p ++ [e]) = some .directory then (d.follow (p ++ [e]) es).toOption
      else none := by
  simp only [follow, hp]
  split
  · rfl
  split
  · rfl
  split
  · rfl
  rename_i hes
  rcases hq : d.at? (p ++ [e]) with _ | c | _
  · rfl
  · -- behind a file nothing is followed, whatever the next element is
    obtain ⟨x, xs, rfl⟩ := exists_cons_of_ne_nil (by simpa using hes)
    simp only [follow, hq]
    split
    · rfl
    split <;> rfl
  · rfl

structure SameDirectories (d d' : Disk) : Prop where
  cwd : d'.cwd = d.cwd
  directory_iff : ∀ p, d'.at? p = some .directory ↔ d.at? p = some .directory

lemma SameDirectories.follow_eq (h : SameDirectories d d') (hd : d.IsTree) (hp : d.at? p = some .directory)
    (es : List String) : (d'.follow p es).toOption = (d.follow p es).toOption := by
  induction es generalizing p with
  | nil => rfl
  | cons e es ih =>
    rw [toOption_follow_cons hp, toOption_follow_cons ((h.directory_iff p).2 hp), ih hp, ih (hd.parent p _ hp)]
    simp only [h.directory_iff]
    by_cases hq : d.at? (p ++ [e]) = some .directory
    · rw [ih hq]
    · simp only [hq, if_false]

lemma SameDirectories.place_eq (h : SameDirectories d d') (hd : d.IsTree) (path : String) :
    (d'.place path).toOption = (d.place path).toOption := by
  unfold place
  split
  · rfl
  split
  · exact h.follow_eq hd d.at?_nil _
  · rw [h.cwd]
    exact h.follow_eq hd hd.cwd _

def contentAt? (d : Disk) (p : Place) : Option Bytes :=
  match d.at? p with
  | some (.file c) => some c
  | _ => none

lemma toOption_read (d : Disk) (path : String) :
    (d.read path).toOption = (d.place path).toOption.bind d.contentAt? := by
  rw [read, find]
  rcases d.place path with reason | p
  · rfl
  · simp only [contentAt?, bind, Except.bind, Except.toOption, Option.bind]
    rcases d.at? p with _ | c | _ <;> rfl

lemma toOption_read_eq_some_iff : (d.read path).toOption = some content ↔
      ∃ p, (d.place path).toOption = some p ∧ d.at? p = some (.file content) := by
  rw [toOption_read, bind_eq_some_iff]
  refine exists_congr fun p => and_congr_right fun _ => ?_
  rcases hp : d.at? p with _ | c | _ <;> simp [contentAt?, hp]

/-! ### Changes of one file -/

/-- Whether two trees differ in at most the file at a place. -/
structure ChangesFile (p : Place) (d d' : Disk) : Prop extends SameDirectories d d' where
  isTree : d'.IsTree
  at?_eq : ∀ q, q ≠ p → d'.at? q = d.at? q

lemma IsTree.changesFile_refl (hd : d.IsTree) (p : Place) : ChangesFile p d d :=
  { cwd := rfl, directory_iff := fun _ => Iff.rfl, isTree := hd, at?_eq := fun _ _ => rfl }

lemma ChangesFile.read_eq (h : ChangesFile p d d') (hd : d.IsTree) (hpath : (d.place path).toOption ≠ some p) :
    (d'.read path).toOption = (d.read path).toOption := by
  rw [toOption_read, toOption_read, h.place_eq hd]
  refine bind_congr fun q hq => ?_
  have hne : q ≠ p := by
    rintro rfl
    exact hpath hq
  rw [contentAt?, contentAt?, h.at?_eq q hne]

/-- A change of what is no directory before and after, at a place in one if it is a file after,
changes a file only. -/
lemma IsTree.changesFile (hd : d.IsTree) (hcwd : d'.cwd = d.cwd) (hat : ∀ q, q ≠ p → d'.at? q = d.at? q)
    (hold : d.at? p ≠ some .directory) (hnew : d'.at? p ≠ some .directory)
    (hparent : d'.at? p ≠ none → d.at? p.dropLast = some .directory) : ChangesFile p d d' := by
  have hdir : ∀ q, d'.at? q = some .directory ↔ d.at? q = some .directory := fun q => by
    by_cases hq : q = p
    · rw [hq, iff_false_right hold]
      exact hnew
    · rw [hat q hq]
  refine { cwd := hcwd, directory_iff := hdir, isTree := ⟨hcwd ▸ (hdir _).2 hd.cwd, fun q n hq => ?_⟩, at?_eq := hat }
  rw [hdir]
  by_cases hqp : q = p
  · subst hqp
    exact hparent (by simp [hq])
  · exact hd.parent q n (hat q hqp ▸ hq)

lemma IsTree.changesFile_write (hd : d.IsTree) (h : d.write path content = .ok d') :
    ∃ p, (d.place path).toOption = some p ∧ ChangesFile p d d' ∧ d'.at? p = some (.file content) := by
  unfold write at h
  split at h
  · cases h
  rename_i p hplace
  -- a file is written over, whose parent is a directory in every tree, or is new in a directory that is looked up
  obtain ⟨hdir, hparent, rfl⟩ : d.at? p ≠ some .directory ∧ d.at? p.dropLast = some .directory ∧
      d.put p (.file content) = d' := by
    split at h
    · cases h
    · rename_i c hp
      exact ⟨by simp [hp], hd.parent p _ hp, Except.ok.inj h⟩
    · rename_i hp
      split at h
      · rename_i hparent
        exact ⟨by simp [hp], hparent, Except.ok.inj h⟩
      · cases h
      · cases h
  have hne : p ≠ [] := by
    rintro rfl
    exact hdir d.at?_nil
  have hput : (d.put p (.file content)).at? p = some (.file content) := by rw [at?_put d hne, if_pos rfl]
  refine ⟨p, by rw [hplace]; rfl, ?_, hput⟩
  refine hd.changesFile rfl (fun q hq => ?_) hdir (by simp [hput]) fun _ => hparent
  rw [at?_put d hne, if_neg hq]

lemma IsTree.changesFile_remove (hd : d.IsTree) (h : (d.read path).toOption = some content) :
    ∃ p d', (d.place path).toOption = some p ∧ d.remove path = .ok d' ∧ ChangesFile p d d' ∧ d'.at? p = none := by
  obtain ⟨p, hplace, hp⟩ := toOption_read_eq_some_iff.1 h
  have hne : p ≠ [] := by
    rintro rfl
    cases hp
  have hfind : d.find path = .ok (p, .file content) := by
    rcases hq : d.place path with reason | q
    · rw [hq] at hplace
      cases hplace
    · rw [hq] at hplace
      obtain rfl : q = p := some.inj hplace
      simp only [find, hq, bind, Except.bind, hp]
  have hgone : (d.erase p).at? p = none := by rw [at?_erase d hne, if_pos (prefix_refl p)]
  refine ⟨p, d.erase p, hplace, by rw [remove, hfind], ?_, hgone⟩
  refine hd.changesFile rfl (fun q hq => ?_) (by simp [hp]) (by simp [hgone]) fun hn => absurd hgone hn
  rw [at?_erase d hne]
  split
  · rename_i hpq
    exact (hd.at?_eq_none_of_file hp hpq (Ne.symm hq)).symm
  · rfl

/-! ### Taking away -/

/-- Whether a tree is what is left of another one when places were taken away with everything below
them. -/
structure IsPart (d' d : Disk) : Prop where
  cwd : d'.cwd = d.cwd
  at?_eq_some : ∀ p n, d'.at? p = some n → d.at? p = some n
  parent : ∀ p n, d'.at? p = some n → d'.at? p.dropLast = d.at? p.dropLast

lemma isPart_refl (d : Disk) : IsPart d d := ⟨rfl, fun _ _ h => h, fun _ _ _ => rfl⟩

lemma isPart_erase (d : Disk) (p : Place) : IsPart (d.erase p) d := by
  have hat : ∀ q n, (d.erase p).at? q = some n → q ≠ [] → p.isPrefixOf q = false ∧ d.at? q = some n := by
    intro q n hq hnil
    rw [at?_of_ne_nil _ hnil, erase, lookup_filter_key fun q => !p.isPrefixOf q] at hq
    rw [at?_of_ne_nil _ hnil]
    obtain ⟨hkeep, hq⟩ := ite_none_right_eq_some.1 hq
    exact ⟨by simpa using hkeep, hq⟩
  refine ⟨rfl, fun q n hq => ?_, fun q n hq => ?_⟩
  · by_cases hnil : q = []
    · rwa [hnil] at hq ⊢
    · exact (hat q n hq hnil).2
  · by_cases hparent : q.dropLast = []
    · rw [hparent]
      rfl
    have hnil : q ≠ [] := fun h => hparent (by rw [h]; rfl)
    -- what is not below the place is in nothing that is below it
    have hkeep : p.isPrefixOf q.dropLast = false := by
      refine Bool.eq_false_iff.2 fun hprefix => ?_
      have habove := isPrefixOf_iff_prefix.1 hprefix
      have hlast := dropLast_prefix q
      have hbelow := isPrefixOf_iff_prefix.2 (habove.trans hlast)
      have hnot := (hat q n hq hnil).1
      rw [hbelow] at hnot
      cases hnot
    rw [at?_of_ne_nil _ hparent, at?_of_ne_nil _ hparent, erase, lookup_filter_key fun q => !p.isPrefixOf q, hkeep]
    rfl

variable (h : IsPart d' d) (hd : d.IsTree)
include h hd

lemma IsPart.isTree (hcwd : d'.at? d'.cwd = some .directory) : d'.IsTree where
  cwd := hcwd
  parent p n hp := (h.parent p n hp).trans (hd.parent p n (h.at?_eq_some p n hp))

lemma IsPart.follow_eq_or (hp : d.at? p = some .directory) (es : List String) :
    d'.follow p es = d.follow p es ∨ d'.follow p es = .error .noSuchFile := by
  induction es generalizing p with
  | nil => exact .inl rfl
  | cons e es ih =>
    rcases hn : d'.at? p with _ | n
    · simp only [follow, hn, hp]
      split
      · exact ih hp
      split
      · exact ih (hd.parent p _ hp)
      · exact .inr rfl
    obtain rfl : n = .directory := some.inj ((h.at?_eq_some p n hn).symm.trans hp)
    simp only [follow, hn, hp]
    split
    · exact ih hp
    split
    · exact ih (hd.parent p _ hp)
    cases es with
    | nil => exact .inl rfl
    | cons e' es =>
      rcases hnext : d'.at? (p ++ [e]) with _ | n
      · exact .inr rfl
      have hnext' := h.at?_eq_some _ _ hnext
      rw [hnext']
      cases n with
      | directory => exact ih hnext'
      | file c => exact .inl (by simp [follow, hnext, hnext'])

lemma IsPart.place_eq_or (path : String) : d'.place path = d.place path ∨ d'.place path = .error .noSuchFile := by
  unfold place
  split
  · exact .inl rfl
  rw [h.cwd]
  split
  · exact h.follow_eq_or hd d.at?_nil _
  · exact h.follow_eq_or hd hd.cwd _

lemma IsPart.place_eq_some (hp : (d'.place path).toOption = some p) : (d.place path).toOption = some p := by
  rcases h.place_eq_or hd path with heq | herror
  · rwa [heq] at hp
  · rw [herror] at hp
    cases hp

lemma IsPart.read_eq_some (hread : (d'.read path).toOption = some content) :
    (d.read path).toOption = some content := by
  rw [toOption_read_eq_some_iff] at hread ⊢
  obtain ⟨p, hplace, hcontent⟩ := hread
  exact ⟨p, h.place_eq_some hd hplace, h.at?_eq_some p _ hcontent⟩

end Disk

/-! ### Spellings -/

open List

namespace Path

variable {rooted : Bool} {stack : List String} {path name : String}

/-! ### Elements of a path -/

lemma elements_of_notMem (h : '/' ∉ name.toList) : elements name = [name] := by
  rw [elements, splitOn_eq_singleton h, map_singleton, String.ofList_toList]

lemma elements_append (path path' : String) : elements (path ++ "/" ++ path') = elements path ++ elements path' := by
  have hchars : (path ++ "/" ++ path').toList = path.toList ++ '/' :: path'.toList := by
    rw [String.toList_append, String.toList_append, append_assoc]
    rfl
  rw [elements, hchars, splitOn_append_cons_self, map_append]
  rfl

lemma elements_intercalate {names : List String} (hne : names ≠ []) (h : ∀ name ∈ names, '/' ∉ name.toList) :
    elements (String.intercalate "/" names) = names := by
  induction names with
  | nil => contradiction
  | cons name names ih =>
    rw [forall_mem_cons] at h
    cases names with
    | nil => rw [String.intercalate_singleton, elements_of_notMem h.1]
    | cons name' names =>
      rw [String.intercalate_cons_cons, elements_append, elements_of_notMem h.1, ih (cons_ne_nil _ _) h.2]
      rfl

lemma notMem_of_mem_splitOn {a : Char} {xs ys : List Char} (h : ys ∈ xs.splitOn a) : a ∉ ys := by
  induction xs generalizing ys with
  | nil =>
    rw [splitOn_nil, mem_singleton] at h
    exact h ▸ not_mem_nil
  | cons x xs ih =>
    rw [splitOn_cons_eq_if_modifyHead] at h
    split at h
    · rcases mem_cons.1 h with rfl | h
      · exact not_mem_nil
      · exact ih h
    · rename_i hx
      obtain ⟨zs, zss, hsplit⟩ := exists_cons_of_ne_nil (splitOn_ne_nil a xs)
      rw [hsplit, modifyHead_cons, mem_cons] at h
      have hmem : ∀ zs' ∈ zs :: zss, a ∉ zs' := fun zs' hzs => ih (hsplit ▸ hzs)
      rw [forall_mem_cons] at hmem
      rcases h with rfl | h
      · rw [mem_cons, not_or]
        exact ⟨fun heq => hx (beq_iff_eq.2 heq.symm), hmem.1⟩
      · exact hmem.2 ys h

lemma notMem_of_mem_elements {element : String} (h : element ∈ elements path) : '/' ∉ element.toList := by
  obtain ⟨cs, hcs, rfl⟩ := mem_map.1 h
  rw [String.toList_ofList]
  exact notMem_of_mem_splitOn hcs

lemma notMem_of_mem_pushElement {element : String} (hstack : ∀ e ∈ stack, '/' ∉ e.toList)
    (helement : '/' ∉ element.toList) : ∀ e ∈ pushElement rooted stack element, '/' ∉ e.toList := by
  unfold pushElement
  split
  · exact hstack
  split
  · split
    · split
      · exact nofun
      · decide
    · rw [forall_mem_cons] at hstack
      split
      · simp only [forall_mem_cons]
        exact ⟨by decide, hstack⟩
      · exact hstack.2
  · exact forall_mem_cons.2 ⟨helement, hstack⟩

lemma notMem_of_mem_cleanElements : ∀ e ∈ cleanElements path, '/' ∉ e.toList := by
  have hstack := List.foldlRecOn (motive := fun stack => ∀ e ∈ stack, '/' ∉ e.toList) (elements path)
    (pushElement (isAbsolute path)) (forall_mem_nil _) fun _ hstack e he =>
      notMem_of_mem_pushElement hstack (notMem_of_mem_elements he)
  exact fun e he => hstack e (mem_reverse.1 he)

structure IsName (name : String) : Prop where
  slash_notMem : '/' ∉ name.toList
  ne_empty : name ≠ ""
  ne_dot : name ≠ "."
  ne_dots : name ≠ ".."

instance (name : String) : Decidable (IsName name) :=
  decidable_of_iff ('/' ∉ name.toList ∧ name ≠ "" ∧ name ≠ "." ∧ name ≠ "..")
    ⟨fun ⟨hslash, hempty, hdot, hdots⟩ => ⟨hslash, hempty, hdot, hdots⟩,
      fun h => ⟨h.slash_notMem, h.ne_empty, h.ne_dot, h.ne_dots⟩⟩

/-! ### Reduced elements -/

/-- Whether the elements of a path, held in reverse, are those of a shortest spelling. -/
def IsReduced (rooted : Bool) : List String → Prop
  | [] => True
  | e :: rest =>
    (e ≠ "" ∧ e ≠ "." ∧ (e = ".." → rooted = false ∧ ∀ e' ∈ rest, e' = "..")) ∧ IsReduced rooted rest

lemma isReduced_pushElement (h : IsReduced rooted stack) (e : String) :
    IsReduced rooted (pushElement rooted stack e) := by
  unfold pushElement
  split
  · exact h
  rename_i hskip
  rw [Bool.or_eq_true, beq_iff_eq, beq_iff_eq, not_or] at hskip
  split
  · rcases stack with _ | ⟨top, rest⟩
    · cases rooted
      · exact ⟨⟨by decide, by decide, fun _ => ⟨rfl, nofun⟩⟩, trivial⟩
      · trivial
    · obtain ⟨⟨hempty, hdot, hdots⟩, hrest⟩ := h
      dsimp only
      split
      · rename_i htop
        have htop : top = ".." := beq_iff_eq.1 htop
        exact ⟨⟨by decide, by decide, fun _ => ⟨(hdots htop).1, forall_mem_cons.2 ⟨htop, (hdots htop).2⟩⟩⟩,
          ⟨hempty, hdot, hdots⟩, hrest⟩
      · exact hrest
  · rename_i hdots
    exact ⟨⟨hskip.1, hskip.2, fun he => absurd (beq_iff_eq.2 he) hdots⟩, h⟩

lemma isReduced_cleanElements (path : String) : IsReduced (isAbsolute path) (cleanElements path).reverse := by
  rw [cleanElements, reverse_reverse]
  exact foldlRecOn (motive := IsReduced (isAbsolute path)) _ _ trivial fun _ h e _ => isReduced_pushElement h e

lemma ne_empty_of_isReduced (h : IsReduced rooted stack) : ∀ e ∈ stack, e ≠ "" := by
  induction stack with
  | nil => exact nofun
  | cons e rest ih => exact forall_mem_cons.2 ⟨h.1.1, ih h.2⟩

lemma ne_empty_of_mem_cleanElements : ∀ e ∈ cleanElements path, e ≠ "" :=
  fun e he => ne_empty_of_isReduced (isReduced_cleanElements path) e (mem_reverse.2 he)

lemma exists_ups_names (h : IsReduced rooted stack) :
    ∃ ups names, stack.reverse = ups ++ names ∧ (∀ e ∈ ups, e = "..") ∧ ∀ e ∈ names, e ≠ "" ∧ e ≠ "." ∧ e ≠ ".." := by
  induction stack with
  | nil => exact ⟨[], [], rfl, nofun, nofun⟩
  | cons e rest ih =>
    obtain ⟨⟨hempty, hdot, hdots⟩, hrest⟩ := h
    by_cases he : e = ".."
    · refine ⟨(e :: rest).reverse, [], (append_nil _).symm, fun e' he' => ?_, nofun⟩
      rcases mem_cons.1 (mem_reverse.1 he') with rfl | he'
      · exact he
      · exact (hdots he).2 e' he'
    · obtain ⟨ups, names, hreverse, hups, hnames⟩ := ih hrest
      refine ⟨ups, names ++ [e], by rw [reverse_cons, hreverse, append_assoc], hups, ?_⟩
      rw [forall_mem_append]
      exact ⟨hnames, forall_mem_singleton.2 ⟨hempty, hdot, he⟩⟩

lemma pushElement_of_isReduced {e : String} {rest : List String} (h : IsReduced rooted (e :: rest)) :
    pushElement rooted rest e = e :: rest := by
  obtain ⟨⟨hempty, hdot, hdots⟩, -⟩ := h
  unfold pushElement
  rw [if_neg (by simp [hempty, hdot])]
  split
  · rename_i he
    have he : e = ".." := beq_iff_eq.1 he
    obtain ⟨hrooted, hrest⟩ := hdots he
    subst he
    cases rest with
    | nil => simp [hrooted]
    | cons top rest => simp [hrest top mem_cons_self]
  · rfl

lemma foldl_pushElement_reverse (h : IsReduced rooted stack) :
    stack.reverse.foldl (pushElement rooted) [] = stack := by
  induction stack with
  | nil => rfl
  | cons e rest ih =>
    rw [reverse_cons, foldl_append, ih h.2]
    exact pushElement_of_isReduced h

/-! ### Cleaned paths -/

lemma isAbsolute_rooted (body : String) : isAbsolute ("/" ++ body) := by
  rw [isAbsolute, String.toList_append]
  rfl

lemma isAbsolute_of_elements {e : String} {es : List String} (h : elements path = e :: es) (he : e ≠ "") :
    isAbsolute path = false := by
  rw [isAbsolute, beq_eq_false_iff_ne]
  intro hslash
  obtain ⟨cs, hcs⟩ := head?_eq_some_iff.1 hslash
  rw [elements, hcs, splitOn_cons_eq_if_modifyHead, if_pos (beq_self_eq_true _), map_cons] at h
  exact he (List.cons.inj h).1.symm

lemma foldl_pushElement_elements {es : List String} (h : IsReduced rooted es.reverse)
    (hslash : ∀ e ∈ es, '/' ∉ e.toList) :
    (elements (String.intercalate "/" es)).foldl (pushElement rooted) [] = es.reverse := by
  rcases es with _ | ⟨e, es⟩
  · rfl
  · rw [elements_intercalate (cons_ne_nil _ _) hslash]
    conv_lhs => rw [← reverse_reverse (e :: es)]
    exact foldl_pushElement_reverse h

lemma cleanElements_eq_nil (h : String.intercalate "/" (cleanElements path) = "") : cleanElements path = [] := by
  by_contra hne
  have helements := elements_intercalate hne notMem_of_mem_cleanElements
  rw [h, elements_of_notMem (by decide)] at helements
  exact ne_empty_of_mem_cleanElements "" (helements ▸ mem_singleton_self "") rfl

lemma isAbsolute_clean (path : String) : isAbsolute (clean path) = isAbsolute path := by
  rw [clean]
  split
  · rename_i habsolute
    rw [isAbsolute_rooted, habsolute]
  rename_i habsolute
  rw [Bool.not_eq_true] at habsolute
  rw [habsolute]
  split
  · rfl
  rename_i hbody
  rcases hes : cleanElements path with _ | ⟨e, es⟩
  · exact absurd (beq_iff_eq.2 (by rw [hes]; rfl)) hbody
  · have hslash : ∀ e' ∈ e :: es, '/' ∉ e'.toList := hes ▸ notMem_of_mem_cleanElements
    have helements := elements_intercalate (cons_ne_nil e es) hslash
    exact isAbsolute_of_elements helements (ne_empty_of_mem_cleanElements e (hes ▸ mem_cons_self))

lemma cleanElements_clean (path : String) : cleanElements (clean path) = cleanElements path := by
  have hfold := foldl_pushElement_elements (isReduced_cleanElements path) notMem_of_mem_cleanElements
  have habsolute := isAbsolute_clean path
  suffices h : (elements (clean path)).foldl (pushElement (isAbsolute path)) [] = (cleanElements path).reverse by
    rw [cleanElements, habsolute, h, reverse_reverse]
  rw [clean]
  split
  · -- the empty element in front of the first slash is skipped
    have hrooted : "/" ++ String.intercalate "/" (cleanElements path) =
        "" ++ "/" ++ String.intercalate "/" (cleanElements path) := by rw [String.empty_append]
    rw [hrooted, elements_append, elements_of_notMem (by decide), singleton_append, foldl_cons]
    exact hfold
  · split
    · rename_i hbody
      rw [cleanElements_eq_nil (beq_iff_eq.1 hbody)]
      rfl
    · exact hfold

/-! ### Joined paths -/

section

variable (hpath : path ≠ "")
include hpath

lemma isAbsolute_append_slash (name : String) : isAbsolute (path ++ "/" ++ name) = isAbsolute path := by
  have hchars : path.toList ≠ [] := fun h => hpath (String.toList_inj.1 h)
  rw [isAbsolute, String.append_assoc, String.toList_append, head?_append_of_ne_nil _ hchars]
  rfl

variable (hname : IsName name)
include hname

lemma join_eq_clean : join [path, name] = clean (path ++ "/" ++ name) := by
  have hparts : [path, name].filter (· != "") = [path, name] := by simp [hpath, hname.ne_empty]
  rw [join, hparts]
  rfl

lemma cleanElements_append_slash : cleanElements (path ++ "/" ++ name) = cleanElements path ++ [name] := by
  rw [cleanElements, isAbsolute_append_slash hpath, elements_append, elements_of_notMem hname.slash_notMem,
    foldl_append, foldl_cons, foldl_nil]
  simp [pushElement, hname.ne_empty, hname.ne_dot, hname.ne_dots, cleanElements]

lemma elements_join :
    elements (join [path, name]) = (if isAbsolute path then [""] else []) ++ cleanElements path ++ [name] := by
  have hbody : elements (String.intercalate "/" (cleanElements path ++ [name])) = cleanElements path ++ [name] := by
    refine elements_intercalate (by simp) fun e he => ?_
    rcases mem_append.1 he with he | he
    · exact notMem_of_mem_cleanElements e he
    · exact mem_singleton.1 he ▸ hname.slash_notMem
  rw [join_eq_clean hpath hname, clean, cleanElements_append_slash hpath hname, isAbsolute_append_slash hpath]
  split
  · have hrooted : "/" ++ String.intercalate "/" (cleanElements path ++ [name]) =
        "" ++ "/" ++ String.intercalate "/" (cleanElements path ++ [name]) := by rw [String.empty_append]
    rw [hrooted, elements_append, hbody, append_assoc]
    rfl
  · rw [if_neg, hbody]
    · rfl
    · intro hempty
      -- the name is the last element
      rw [beq_iff_eq.1 hempty, elements_of_notMem (by decide)] at hbody
      have hlast := congrArg getLast? hbody
      rw [getLast?_concat] at hlast
      exact hname.ne_empty (Option.some.inj hlast).symm

lemma cleanElements_join : cleanElements (join [path, name]) = cleanElements path ++ [name] := by
  rw [join_eq_clean hpath hname, cleanElements_clean, cleanElements_append_slash hpath hname]

lemma isAbsolute_join : isAbsolute (join [path, name]) = isAbsolute path := by
  rw [join_eq_clean hpath hname, isAbsolute_clean, isAbsolute_append_slash hpath]

lemma join_ne_empty : join [path, name] ≠ "" := by
  intro hempty
  have helements := cleanElements_join hpath hname
  rw [hempty] at helements
  have hnil : cleanElements "" = [] := by decide
  rw [hnil] at helements
  exact append_ne_nil_of_right_ne_nil _ (cons_ne_nil _ _) helements.symm

end

/-! ### Paths seen from a directory -/

/-- Whether a path is that of a directory or continues it, as far as the spelling tells. -/
structure IsWithin (root path : String) : Prop where
  isAbsolute_eq : isAbsolute root = isAbsolute path
  isPrefix : cleanElements root <+: cleanElements path

lemma isWithin_refl (path : String) : IsWithin path path := ⟨rfl, prefix_rfl⟩

lemma IsWithin.trans {root path' : String} (h : IsWithin root path) (h' : IsWithin path path') :
    IsWithin root path' :=
  ⟨h.isAbsolute_eq.trans h'.isAbsolute_eq, h.isPrefix.trans h'.isPrefix⟩

lemma isWithin_join (hpath : path ≠ "") (hname : IsName name) : IsWithin path (join [path, name]) :=
  ⟨(isAbsolute_join hpath hname).symm, cleanElements_join hpath hname ▸ prefix_append _ _⟩

lemma exists_dropCommon (as bs : List String) :
    ∃ common, as = common ++ (dropCommon as bs).1 ∧ bs = common ++ (dropCommon as bs).2 := by
  fun_induction dropCommon as bs with
  | case1 a as b bs hab ih =>
    obtain ⟨common, has, hbs⟩ := ih
    refine ⟨a :: common, congrArg (a :: ·) has, ?_⟩
    rw [← beq_iff_eq.1 hab]
    exact congrArg (a :: ·) hbs
  | case2 => exact ⟨[], rfl, rfl⟩
  | case3 => exact ⟨[], rfl, rfl⟩

lemma startsWith_intercalate_cons (e : String) (es : List String) :
    (String.intercalate "/" (e :: es)).startsWith e = true := by
  rw [String.startsWith_string_iff]
  cases es with
  | nil => rw [String.intercalate_singleton]
  | cons e' es =>
    rw [String.intercalate_cons_cons, String.append_assoc, String.toList_append]
    exact prefix_append _ _

/-- Only what stands elsewhere is seen through the directory above. -/
lemma isWithin_of_relative {root rel : String} (h : relative root path = some rel)
    (hrel : rel.startsWith ".." = false) : IsWithin root path := by
  rw [relative] at h
  split at h
  · contradiction
  rename_i habsolute
  obtain ⟨common, hroot, hpath⟩ := exists_dropCommon (cleanElements root) (cleanElements path)
  rcases hup : (dropCommon (cleanElements root) (cleanElements path)).1 with _ | ⟨e, up⟩
  · rw [hup, append_nil] at hroot
    refine ⟨by simpa using habsolute, ?_⟩
    rw [hroot, hpath]
    exact prefix_append _ _
  · dsimp only at h
    rw [hup] at h
    split at h
    · contradiction
    · simp only [map_cons, cons_append, Option.some.injEq] at h
      rw [← h, startsWith_intercalate_cons] at hrel
      contradiction

lemma relative_congr {root root' : String} (habsolute : isAbsolute root = isAbsolute root')
    (helements : cleanElements root = cleanElements root') (path : String) :
    relative root path = relative root' path := by
  rw [relative, relative, habsolute, helements]

/-- Two directories, one of which holds the other. -/
structure IsNested (root root' : String) : Prop where
  cleanElements_ne : cleanElements root ≠ cleanElements root'
  isWithin : IsWithin root root' ∨ IsWithin root' root

lemma IsWithin.isNested_or {root root' : String} (h : IsWithin root path) (h' : IsWithin root' path) :
    IsNested root root' ∨ isAbsolute root = isAbsolute root' ∧ cleanElements root = cleanElements root' := by
  have habsolute := h.isAbsolute_eq.trans h'.isAbsolute_eq.symm
  by_cases helements : cleanElements root = cleanElements root'
  · exact .inr ⟨habsolute, helements⟩
  · refine .inl ⟨helements, ?_⟩
    rcases prefix_or_prefix_of_prefix h.isPrefix h'.isPrefix with hprefix | hprefix
    · exact .inl ⟨habsolute, hprefix⟩
    · exact .inr ⟨habsolute.symm, hprefix⟩

end Path

namespace Disk

variable {p : Place} {d : Disk} {name : String}

/-- The place that an element leads to, whatever stands there. -/
def enter (p : Place) (e : String) : Place :=
  if e == "" || e == "." then p else if e == ".." then p.dropLast else p ++ [e]

lemma enter_of_ne {e : String} (hempty : e ≠ "") (hdot : e ≠ ".") (hdots : e ≠ "..") : enter p e = p ++ [e] := by
  simp [enter, hempty, hdot, hdots]

lemma foldl_enter_names {names : List String} (h : ∀ e ∈ names, e ≠ "" ∧ e ≠ "." ∧ e ≠ "..") (p : Place) :
    names.foldl enter p = p ++ names := by
  induction names generalizing p with
  | nil => exact (append_nil p).symm
  | cons e names ih =>
    obtain ⟨⟨hempty, hdot, hdots⟩, hnames⟩ := forall_mem_cons.1 h
    rw [foldl_cons, enter_of_ne hempty hdot hdots, ih hnames, append_assoc]
    rfl

lemma eq_foldl_enter_of_follow {q : Place} {es : List String} (h : d.follow p es = .ok q) : q = es.foldl enter p := by
  induction es generalizing p with
  | nil => exact (Except.ok.inj h).symm
  | cons e es ih =>
    rw [follow] at h
    rw [foldl_cons, enter]
    by_cases hdot : (e == "" || e == ".") = true
    · rw [if_pos hdot] at h ⊢
      split at h
      · contradiction
      · exact ih h
    by_cases hup : (e == "..") = true
    · rw [if_neg hdot, if_pos hup] at h ⊢
      split at h
      · contradiction
      · exact ih h
    rw [if_neg hdot, if_neg hup] at h ⊢
    split at h
    · dsimp only at h
      split at h
      · rename_i hes
        rw [isEmpty_iff.1 hes]
        exact (Except.ok.inj h).symm
      split at h
      · contradiction
      · exact ih h
    all_goals contradiction

lemma foldl_enter_pushElement {rooted : Bool} {start : Place} (hstart : rooted → start = [])
    {stack : List String} (h : Path.IsReduced rooted stack) (e : String) :
    (Path.pushElement rooted stack e).reverse.foldl enter start = enter (stack.reverse.foldl enter start) e := by
  have hpush (e : String) : (e :: stack).reverse.foldl enter start = enter (stack.reverse.foldl enter start) e := by
    rw [reverse_cons, foldl_append]
    rfl
  unfold Path.pushElement
  split
  · rename_i hskip
    rw [enter, if_pos hskip]
  split
  · rename_i hup
    obtain rfl : e = ".." := beq_iff_eq.1 hup
    rcases stack with _ | ⟨top, rest⟩
    · cases rooted
      · rfl
      · rw [hstart rfl]
        rfl
    · dsimp only
      split
      · exact hpush ".."
      · rename_i htop
        obtain ⟨⟨hempty, hdot, -⟩, -⟩ := h
        rw [reverse_cons, foldl_append, foldl_cons, foldl_nil, enter_of_ne hempty hdot (by simpa using htop)]
        exact (dropLast_concat ..).symm
  · exact hpush e

lemma foldl_enter_cleanElements {path : String} {start : Place} (hstart : Path.isAbsolute path → start = []) :
    (Path.cleanElements path).foldl enter start = (Path.elements path).foldl enter start := by
  have hstack : ∀ (es stack : List String), Path.IsReduced (Path.isAbsolute path) stack →
      (es.foldl (Path.pushElement (Path.isAbsolute path)) stack).reverse.foldl enter start =
        es.foldl enter (stack.reverse.foldl enter start) := by
    intro es
    induction es with
    | nil => exact fun stack _ => rfl
    | cons e es ih =>
      intro stack hstack
      rw [foldl_cons, ih _ (Path.isReduced_pushElement hstack e), foldl_enter_pushElement hstart hstack, foldl_cons]
  exact hstack _ [] trivial

lemma follow_name (hname : Path.IsName name) : d.follow p [name] = match d.at? p with
      | some .directory => .ok (p ++ [name])
      | some (.file _) => .error .notDirectory
      | none => .error .noSuchFile := by
  have hdot : ¬ (name == "" || name == ".") = true := by simp [hname.ne_empty, hname.ne_dot]
  have hup : ¬ (name == "..") = true := by simp [hname.ne_dots]
  simp only [follow, if_neg hdot, if_neg hup]
  rcases d.at? p with _ | c | _ <;> rfl

lemma IsTree.follow_ups (hd : d.IsTree) (hp : d.at? p = some .directory) {ups : List String}
    (hups : ∀ e ∈ ups, e = "..") (es : List String) : d.follow p (ups ++ es) = d.follow (ups.foldl enter p) es := by
  induction ups generalizing p with
  | nil => rfl
  | cons e ups ih =>
    obtain ⟨rfl, hrest⟩ := forall_mem_cons.1 hups
    have hstep : d.follow p (".." :: (ups ++ es)) = d.follow p.dropLast (ups ++ es) := by
      rw [follow, hp]
      rfl
    rw [cons_append, hstep]
    exact ih (hd.parent p _ hp) hrest

lemma IsTree.follow_names (hd : d.IsTree) {names : List String} (hnames : ∀ e ∈ names, e ≠ "" ∧ e ≠ "." ∧ e ≠ "..")
    (h : d.at? (p ++ names) = some .directory) (hname : Path.IsName name) :
    d.follow p (names ++ [name]) = .ok (p ++ names ++ [name]) := by
  induction names generalizing p with
  | nil =>
    rw [append_nil] at h
    rw [nil_append, follow_name hname, h, append_nil]
  | cons e names ih =>
    obtain ⟨⟨hempty, hdot, hdots⟩, hnames⟩ := forall_mem_cons.1 hnames
    have hp : d.at? p = some .directory := hd.directory_of_prefix h (prefix_append _ _) (by simp)
    have happend : p ++ e :: names = p ++ [e] ++ names := by simp
    rw [happend] at h ⊢
    have hnext : d.at? (p ++ [e]) = some .directory := by
      by_cases hnil : names = []
      · rwa [hnil, append_nil] at h
      · exact hd.directory_of_prefix h (prefix_append _ _) (by simpa using hnil)
    rw [← ih hnames h, cons_append, follow, hp]
    simp [hempty, hdot, hdots, hnext]

lemma IsTree.place_join (hd : d.IsTree) {path : String} (h : d.place path = .ok p) (hp : d.at? p = some .directory)
    (hname : Path.IsName name) : d.place (Path.join [path, name]) = .ok (p ++ [name]) := by
  have hpath : path ≠ "" := by
    rintro rfl
    contradiction
  rw [place, if_neg (by simpa using hpath)] at h
  rw [place, if_neg (by simpa using Path.join_ne_empty hpath hname), Path.isAbsolute_join hpath hname,
    Path.elements_join hpath hname]
  generalize hstart : (if Path.isAbsolute path = true then [] else d.cwd) = start at h ⊢
  have hdirectory : d.at? start = some .directory := by
    rw [← hstart]
    split
    · rfl
    · exact hd.cwd
  -- the empty element in front of a path that starts at the root leads nowhere
  have hfront : d.follow start ((if Path.isAbsolute path then [""] else []) ++ Path.cleanElements path ++ [name]) =
      d.follow start (Path.cleanElements path ++ [name]) := by
    split
    · show d.follow start ("" :: (Path.cleanElements path ++ [name])) = _
      rw [follow, hdirectory]
      rfl
    · rfl
  have hplace : p = (Path.cleanElements path).foldl enter start := by
    rw [foldl_enter_cleanElements fun habsolute => by rw [← hstart, if_pos habsolute]]
    exact eq_foldl_enter_of_follow h
  obtain ⟨ups, names, helements, hups, hnames⟩ := Path.exists_ups_names (Path.isReduced_cleanElements path)
  rw [reverse_reverse] at helements
  rw [helements, foldl_append, foldl_enter_names hnames] at hplace
  rw [hfront, helements, append_assoc, hd.follow_ups hdirectory hups, hplace]
  exact hd.follow_names hnames (hplace ▸ hp) hname

end Disk

end BytecodeAudit
