import Mathlib.Tactic.Lemma
import BytecodeAudit.Analyzer

/-!
# Writing at a path

What a write of a value at a path does to a tree is said by a relation that follows the path,
`Node.SetTo`: at each step the first entry with the key changes, or an entry is added behind the
others. A write succeeds exactly with such a change (`Node.SetTo.setAt_eq_ok`,
`Node.setTo_of_setAt`), so what it leaves alone is an induction over the path, with the step
`Node.SetTo.entry?_cons`.

A tree is written to in place, and what was added on the way would stay if a later step failed
(`Node.overwrite`). But a write that fails has changed nothing (`Node.overwrite_eq`).
-/

namespace BytecodeAudit.Yaml

open List Option

namespace Node

/-! ### The effect of a write -/

/-- How a node changes when a value is written at a path: along it the first entry with a key
changes, or an entry is added behind the others, and the node at the end becomes a plain scalar. -/
inductive SetTo (value : String) : List String → Node → Node → Prop
  | here (n : Node) : SetTo value [] n (n.toPlainScalar value)
  | change {trim : Trim} {isFlow : Bool} {before after : List (Node × Node)} {k v v' : Node} {key : String}
    {rest : List String} (hk : k.text = key) (hbefore : ∀ e ∈ before, e.1.text ≠ key) (h : SetTo value rest v v') :
    SetTo value (key :: rest) (.mapping trim isFlow (before ++ (k, v) :: after))
      (.mapping trim isFlow (before ++ (k, v') :: after))
  | append {trim : Trim} {isFlow : Bool} {entries : List (Node × Node)} {key : String} {v : Node} {rest : List String}
    (hnew : ∀ e ∈ entries, e.1.text ≠ key) (h : SetTo value rest emptyMapping v) :
    SetTo value (key :: rest) (.mapping trim isFlow entries) (.mapping trim isFlow (entries ++ [(stringKey key, v)]))

/-- The keys of the mapping at a path, if there is one. -/
def keysAt (n : Node) (path : List String) : List Node :=
  match n.at? path with
  | some (.mapping _ _ entries) => entries.map (·.1)
  | _ => []

lemma keysAt_cons (n : Node) (name : String) (p : List String) :
    n.keysAt (name :: p) = ((n.entry? name).map (·.keysAt p)).getD [] := by
  simp only [keysAt, at?]
  cases n.entry? name <;> rfl

lemma text_stringKey (key : String) : (stringKey key).text = key := rfl

lemma at?_emptyMapping {p : List String} (h : p ≠ []) : emptyMapping.at? p = none := by
  cases p with
  | nil => exact absurd rfl h
  | cons => rfl

section Entries

variable {trim : Trim} {isFlow : Bool} {before after entries : List (Node × Node)} {k v : Node} {key : String}

lemma entry?_mapping : entry? key (.mapping trim isFlow entries) = (entries.find? (·.1.text == key)).map (·.2) := rfl

lemma entry?_append_cons (hk : k.text = key) (hbefore : ∀ e ∈ before, e.1.text ≠ key) :
    entry? key (.mapping trim isFlow (before ++ (k, v) :: after)) = some v := by
  have hnone : before.find? (·.1.text == key) = none := by simpa using hbefore
  simp only [entry?_mapping, find?_append, hnone, none_or, find?_cons, beq_iff_eq.2 hk, map_some]

lemma entry?_append_cons_of_ne {name : String} (hk : k.text = key) (hne : name ≠ key) :
    entry? name (.mapping trim isFlow (before ++ (k, v) :: after)) =
      entry? name (.mapping trim isFlow (before ++ after)) := by
  simp only [entry?_mapping, find?_append, find?_cons, hk, beq_eq_false_iff_ne.2 hne.symm]

lemma entry?_of_forall_ne (hnew : ∀ e ∈ entries, e.1.text ≠ key) :
    entry? key (.mapping trim isFlow entries) = none := by
  simpa [entry?_mapping] using hnew

lemma exists_split_or_forall_ne (entries : List (Node × Node)) (key : String) :
    (∃ before k v after, entries = before ++ (k, v) :: after ∧ k.text = key ∧ ∀ e ∈ before, e.1.text ≠ key) ∨
      ∀ e ∈ entries, e.1.text ≠ key := by
  cases h : entries.find? (·.1.text = key) with
  | none => exact .inr fun e he heq => find?_eq_none.1 h e he (decide_eq_true heq)
  | some e =>
    obtain ⟨hkey, before, after, hentries, hbefore⟩ := find?_eq_some_iff_append.1 h
    exact .inl ⟨before, e.1, e.2, after, hentries, of_decide_eq_true hkey, by simpa using hbefore⟩

lemma updateEntry_append_cons {ε : Type} (change : Node → Except ε Node) (hk : k.text = key)
    (hbefore : ∀ e ∈ before, e.1.text ≠ key) :
    updateEntry key change (before ++ (k, v) :: after) = (change v).map fun v' => before ++ (k, v') :: after := by
  induction before with
  | nil =>
    rw [nil_append, updateEntry, if_pos (beq_iff_eq.2 hk)]
    rfl
  | cons e before ih =>
    obtain ⟨hne, hbefore⟩ := forall_mem_cons.1 hbefore
    rw [cons_append, updateEntry, if_neg (by simpa using hne), ih hbefore]
    cases change v <;> rfl

lemma updateEntry_of_forall_ne {ε : Type} (change : Node → Except ε Node) (hnew : ∀ e ∈ entries, e.1.text ≠ key) :
    updateEntry key change entries = (change emptyMapping).map fun v => entries ++ [(stringKey key, v)] := by
  induction entries with
  | nil => rfl
  | cons e entries ih =>
    obtain ⟨hne, hnew⟩ := forall_mem_cons.1 hnew
    rw [updateEntry, if_neg (by simpa using hne), ih hnew]
    cases change emptyMapping <;> rfl

lemma setAt_append_cons (value : String) (done rest : List String) (hk : k.text = key)
    (hbefore : ∀ e ∈ before, e.1.text ≠ key) :
    (Node.mapping trim isFlow (before ++ (k, v) :: after)).setAt value done (key :: rest) =
      (v.setAt value (done ++ [key]) rest).map fun v' => .mapping trim isFlow (before ++ (k, v') :: after) := by
  rw [setAt, updateEntry_append_cons _ hk hbefore]
  cases v.setAt value (done ++ [key]) rest <;> rfl

lemma setAt_of_forall_ne (value : String) (done rest : List String) (hnew : ∀ e ∈ entries, e.1.text ≠ key) :
    (Node.mapping trim isFlow entries).setAt value done (key :: rest) =
      (emptyMapping.setAt value (done ++ [key]) rest).map
        fun v => .mapping trim isFlow (entries ++ [(stringKey key, v)]) := by
  rw [setAt, updateEntry_of_forall_ne _ hnew]
  cases emptyMapping.setAt value (done ++ [key]) rest <;> rfl

lemma exists_split_of_isSome {n : Node} {rest : List String} (h : (n.at? (key :: rest)).isSome) :
    ∃ trim isFlow before k v after, n = .mapping trim isFlow (before ++ (k, v) :: after) ∧ k.text = key ∧
      (∀ e ∈ before, e.1.text ≠ key) ∧ (v.at? rest).isSome := by
  cases n with
  | mapping trim isFlow entries =>
    obtain ⟨before, k, v, after, rfl, hk, hbefore⟩ | hnew := exists_split_or_forall_ne entries key
    · rw [at?, entry?_append_cons hk hbefore] at h
      exact ⟨trim, isFlow, before, k, v, after, rfl, hk, hbefore, h⟩
    · rw [at?, entry?_of_forall_ne hnew] at h
      cases h
  | _ => cases h

end Entries

lemma SetTo.setAt_eq_ok {value : String} {path : List String} {n n' : Node} (h : SetTo value path n n')
    (done : List String) : n.setAt value done path = .ok n' := by
  induction h generalizing done with
  | here n => rw [setAt]
  | change hk hbefore _ ih => rw [setAt_append_cons _ _ _ hk hbefore, ih]; rfl
  | append hnew _ ih => rw [setAt_of_forall_ne _ _ _ hnew, ih]; rfl

lemma setTo_of_setAt {value : String} {done path : List String} {n n' : Node} (h : n.setAt value done path = .ok n') :
    SetTo value path n n' := by
  induction path generalizing done n n' with
  | nil =>
    rw [setAt] at h
    cases h
    exact .here n
  | cons key rest ih =>
    cases n with
    | mapping trim isFlow entries =>
      obtain ⟨before, k, v, after, rfl, hk, hbefore⟩ | hnew := exists_split_or_forall_ne entries key
      · rw [setAt_append_cons _ _ _ hk hbefore] at h
        cases hv : v.setAt value (done ++ [key]) rest with
        | error => rw [hv] at h; cases h
        | ok v' => rw [hv] at h; cases h; exact .change hk hbefore (ih hv)
      · rw [setAt_of_forall_ne _ _ _ hnew] at h
        cases hv : emptyMapping.setAt value (done ++ [key]) rest with
        | error => rw [hv] at h; cases h
        | ok v' => rw [hv] at h; cases h; exact .append hnew (ih hv)
    | _ => cases h

namespace SetTo

variable {value : String} {path : List String} {n n' : Node}

/-- One step along the path: what stands below its key changes, and all other entries are found as
before. -/
lemma entry?_cons {key : String} (h : SetTo value (key :: path) n n') :
    ∃ v v', SetTo value path v v' ∧ n'.entry? key = some v' ∧
      (n.entry? key = some v ∨ n.entry? key = none ∧ v = emptyMapping) ∧
      (∀ name, name ≠ key → n'.entry? name = n.entry? name) ∧ n.keysAt [] <+: n'.keysAt [] := by
  cases h with
  | @change _ _ _ _ _ v v' _ _ hk hbefore h =>
    refine ⟨v, v', h, entry?_append_cons hk hbefore, .inl (entry?_append_cons hk hbefore), fun name hne => ?_, ?_⟩
    · rw [entry?_append_cons_of_ne hk hne, entry?_append_cons_of_ne hk hne]
    · simp [keysAt, at?]
  | @append _ _ entries _ v _ hnew h =>
    refine ⟨emptyMapping, v, h, entry?_append_cons (text_stringKey key) hnew, .inr ⟨?_, rfl⟩, fun name hne => ?_, ?_⟩
    · exact entry?_of_forall_ne hnew
    · rw [entry?_append_cons_of_ne (text_stringKey key) hne, append_nil]
    · simp [keysAt, at?]

section

variable (h : SetTo value path n n')
include h

lemma exists_at?_eq :
    ∃ trim : Trim, trim.tag = "" ∧ trim.isTagged = false ∧ n'.at? path = some (.scalar trim .plain value) := by
  induction path generalizing n n' with
  | nil =>
    cases h
    exact ⟨{ n.trim with tag := "", isTagged := false }, rfl, rfl, rfl⟩
  | cons key path ih =>
    obtain ⟨v, v', hv, hv', -⟩ := h.entry?_cons
    simpa only [at?, hv', bind_some] using ih hv

lemma at?_eq {p : List String} (hp : ¬ p <+: path) (hpath : ¬ path <+: p) : n'.at? p = n.at? p := by
  induction path generalizing n n' p with
  | nil => exact absurd nil_prefix hpath
  | cons key path ih =>
    obtain _ | ⟨name, p⟩ := p
    · exact absurd nil_prefix hp
    obtain ⟨v, v', hv, hv', hfound, hother, -⟩ := h.entry?_cons
    by_cases heq : name = key
    · subst heq
      rw [cons_prefix_cons, and_iff_right rfl] at hp hpath
      rw [at?, at?, hv', bind_some, ih hv hp hpath]
      obtain hfound | ⟨hnone, rfl⟩ := hfound
      · rw [hfound, bind_some]
      · -- nothing was there, and nothing else is there now
        rw [hnone, bind_none, at?_emptyMapping]
        rintro rfl
        exact hp nil_prefix
    · rw [at?, at?, hother name heq]

lemma prefix_keysAt {p : List String} (hpath : ¬ path <+: p) : n.keysAt p <+: n'.keysAt p := by
  induction path generalizing n n' p with
  | nil => exact absurd nil_prefix hpath
  | cons key path ih =>
    obtain ⟨v, v', hv, hv', hfound, hother, hkeys⟩ := h.entry?_cons
    obtain _ | ⟨name, p⟩ := p
    · exact hkeys
    by_cases heq : name = key
    · subst heq
      rw [cons_prefix_cons, and_iff_right rfl] at hpath
      rw [keysAt_cons, keysAt_cons, hv']
      obtain hfound | ⟨hnone, rfl⟩ := hfound
      · rw [hfound]
        exact ih hv hpath
      · rw [hnone]
        exact nil_prefix
    · have hsame : n'.keysAt (name :: p) = n.keysAt (name :: p) := by rw [keysAt_cons, keysAt_cons, hother name heq]
      exact hsame ▸ prefix_rfl

/-- Writing the same value again changes nothing. -/
lemma self : SetTo value path n' n' := by
  induction h with
  | here n => exact .here (n.toPlainScalar value)
  | change hk hbefore _ ih => exact .change hk hbefore ih
  | append hnew _ ih => exact .change rfl hnew ih

end

/-- Writes below different keys of a mapping, the entry of the one behind that of the other. -/
lemma diamond_of_split {trim : Trim} {isFlow : Bool} {before between after : List (Node × Node)}
    {k l x y x' y' : Node} {key name value' : String} {path' : List String} (hk : k.text = key) (hl : l.text = name)
    (hkey : ∀ e ∈ before, e.1.text ≠ key) (hname : ∀ e ∈ before ++ (k, x) :: between, e.1.text ≠ name)
    (hx : SetTo value path x x') (hy : SetTo value' path' y y') :
    let n := .mapping trim isFlow (before ++ (k, x) :: (between ++ (l, y) :: after))
    ∃ n₁ n₂ n', SetTo value (key :: path) n n₁ ∧ SetTo value' (name :: path') n n₂ ∧
      SetTo value' (name :: path') n₁ n' ∧ SetTo value (key :: path) n₂ n' := by
  have hbehind (v : Node) : SetTo value' (name :: path')
      (.mapping trim isFlow (before ++ (k, v) :: (between ++ (l, y) :: after)))
      (.mapping trim isFlow (before ++ (k, v) :: (between ++ (l, y') :: after))) := by
    have hfront : ∀ e ∈ before ++ (k, v) :: between, e.1.text ≠ name := by
      simpa only [forall_mem_append, forall_mem_cons] using hname
    simpa only [append_assoc, cons_append] using SetTo.change hl hfront hy
  exact ⟨_, _, _, .change hk hkey hx, hbehind x, hbehind x', .change hk hkey hx⟩

lemma exists_of_isSome (value : String) (h : (n.at? path).isSome) : ∃ n', SetTo value path n n' := by
  induction path generalizing n with
  | nil => exact ⟨_, .here n⟩
  | cons key path ih =>
    obtain ⟨trim, isFlow, before, k, v, after, rfl, hk, hbefore, hv⟩ := exists_split_of_isSome h
    obtain ⟨v', hv'⟩ := ih hv
    exact ⟨_, .change hk hbefore hv'⟩

/-- Writes at two paths that are there and do not lead through each other can be made in either
order. -/
lemma diamond {path' : List String} (value value' : String) (hpath : ¬ path <+: path') (hpath' : ¬ path' <+: path)
    (h : (n.at? path).isSome) (h' : (n.at? path').isSome) :
    ∃ n₁ n₂ n', SetTo value path n n₁ ∧ SetTo value' path' n n₂ ∧
      SetTo value' path' n₁ n' ∧ SetTo value path n₂ n' := by
  induction path generalizing path' n with
  | nil => exact absurd nil_prefix hpath
  | cons key path ih =>
    obtain _ | ⟨name, path'⟩ := path'
    · exact absurd nil_prefix hpath'
    obtain ⟨trim, isFlow, before, k, x, after, rfl, hk, hkey, hx⟩ := exists_split_of_isSome h
    by_cases heq : key = name
    · subst heq
      rw [cons_prefix_cons, and_iff_right rfl] at hpath hpath'
      rw [at?, entry?_append_cons hk hkey, bind_some] at h'
      obtain ⟨x₁, x₂, x', h₁, h₂, h₁', h₂'⟩ := ih hpath hpath' hx h'
      exact ⟨_, _, _, .change hk hkey h₁, .change hk hkey h₂, .change hk hkey h₁', .change hk hkey h₂'⟩
    · obtain ⟨_, _, before', l, y, after', hsplit, hl, hname, hy⟩ := exists_split_of_isSome h'
      injection hsplit with htrim hflow hentries
      obtain ⟨x', hx'⟩ := exists_of_isSome value hx
      obtain ⟨y', hy'⟩ := exists_of_isSome value' hy
      -- one of the two entries stands before the other
      obtain ⟨mid, rfl, hrest⟩ | ⟨mid, rfl, hrest⟩ := append_eq_append_iff.1 hentries
      · obtain _ | ⟨e, mid⟩ := mid
        · cases hrest
          exact absurd (hk.symm.trans hl) heq
        · cases hrest
          exact diamond_of_split hk hl hkey hname hx' hy'
      · obtain _ | ⟨e, mid⟩ := mid
        · cases hrest
          exact absurd (hk.symm.trans hl) heq
        · cases hrest
          obtain ⟨n₂, n₁, n', h₂, h₁, h₂', h₁'⟩ := diamond_of_split hl hk hname hkey hy' hx'
          rw [append_assoc]
          exact ⟨n₁, n₂, n', h₁, h₂, h₁', h₂'⟩

/-- Entries that are missing are added as mappings, so nothing is in the way of a path that leads
through them. -/
lemma exists_of_emptyMapping (value : String) (path : List String) : ∃ n, SetTo value path emptyMapping n := by
  induction path with
  | nil => exact ⟨_, .here _⟩
  | cons key path ih =>
    obtain ⟨n, h⟩ := ih
    exact ⟨_, .append (forall_mem_nil _) h⟩

end SetTo

/-! ### Writing in place -/

/-- Leaves what there was if there is no result. -/
def inPlace {ε α : Type} (old : α) : Except ε α → α × Option ε
  | .ok new => (new, none)
  | .error e => (old, some e)

/-- Changes the first entry with a key in place. An entry that is added stays even if the change of
it fails. -/
def overwriteEntry {ε : Type} (key : String) (write : Node → Node × Option ε) :
    List (Node × Node) → List (Node × Node) × Option ε
  | [] => ([(stringKey key, (write emptyMapping).1)], (write emptyMapping).2)
  | (k, v) :: rest =>
    if k.text == key then ((k, (write v).1) :: rest, (write v).2)
    else ((k, v) :: (overwriteEntry key write rest).1, (overwriteEntry key write rest).2)

/-- Writes at a path in place: what changed on the way stays if a later step fails. -/
def overwrite (value : String) (done : List String) : List String → Node → Node × Option (List String)
  | [], n => (n.toPlainScalar value, none)
  | key :: rest, .mapping trim isFlow entries =>
    let (entries, e) := overwriteEntry key (overwrite value (done ++ [key]) rest) entries
    (.mapping trim isFlow entries, e)
  | _ :: _, n => (n, some done)

lemma overwriteEntry_eq {ε : Type} {key : String} {write : Node → Node × Option ε} {change : Node → Except ε Node}
    (h : ∀ n, write n = inPlace n (change n)) (hempty : ∃ n, change emptyMapping = .ok n)
    (entries : List (Node × Node)) :
    overwriteEntry key write entries = inPlace entries (updateEntry key change entries) := by
  induction entries with
  | nil =>
    obtain ⟨n, hn⟩ := hempty
    rw [overwriteEntry, updateEntry, h, hn]
    rfl
  | cons e entries ih =>
    rw [overwriteEntry, updateEntry, ih, h]
    split
    · cases change e.2 <;> rfl
    · cases updateEntry key change entries <;> rfl

/-- A write fails only before it has changed anything. -/
lemma overwrite_eq (value : String) (done path : List String) (n : Node) :
    n.overwrite value done path = inPlace n (n.setAt value done path) := by
  induction path generalizing done n with
  | nil => rw [overwrite, setAt]; rfl
  | cons key path ih =>
    cases n with
    | mapping trim isFlow entries =>
      obtain ⟨v, hv⟩ := SetTo.exists_of_emptyMapping value path
      rw [overwrite, setAt, overwriteEntry_eq (ih (done ++ [key])) ⟨v, hv.setAt_eq_ok _⟩]
      cases updateEntry key (setAt value (done ++ [key]) path) entries <;> rfl
    | _ => rfl

end Node

namespace Document

open Setting (keyParts)

def overwrite (d : Document) (path : List String) (value : String) : Document × Option (List String) :=
  let (n, e) := (d.root.getD Node.emptyMapping).overwrite value [] path
  ({ d with root := some n }, e)

def at? (d : Document) (path : List String) : Option Node := d.root.bind (Node.at? path)

def keysAt (d : Document) (path : List String) : List Node := (d.root.map (·.keysAt path)).getD []

lemma overwrite_eq (d : Document) (path : List String) (value : String) :
    d.overwrite path value = Node.inPlace d (d.setAt path value) := by
  rw [overwrite, setAt, Node.overwrite_eq]
  obtain ⟨head, foot, root⟩ := d
  cases root with
  | none =>
    obtain ⟨n, hn⟩ := Node.SetTo.exists_of_emptyMapping value path
    rw [getD_none, hn.setAt_eq_ok]
    rfl
  | some n =>
    rw [getD_some]
    cases n.setAt value [] path <;> rfl

lemma at?_eq (d : Document) {p : List String} (h : p ≠ []) : d.at? p = (d.root.getD Node.emptyMapping).at? p := by
  rw [at?]
  cases d.root with
  | none => exact (Node.at?_emptyMapping h).symm
  | some n => rfl

lemma keysAt_eq (d : Document) (p : List String) : d.keysAt p = (d.root.getD Node.emptyMapping).keysAt p := by
  rw [keysAt]
  cases d.root with
  | none => cases p <;> rfl
  | some n => rfl

lemma setAt_eq_ok_iff {d d' : Document} {path : List String} {value : String} : d.setAt path value = .ok d' ↔
    ∃ n, Node.SetTo value path (d.root.getD Node.emptyMapping) n ∧ d' = { d with root := some n } := by
  rw [setAt]
  constructor
  · intro h
    cases hn : (d.root.getD Node.emptyMapping).setAt value [] path with
    | error => rw [hn] at h; cases h
    | ok n => rw [hn] at h; cases h; exact ⟨n, Node.setTo_of_setAt hn, rfl⟩
  · rintro ⟨n, hn, rfl⟩
    rw [hn.setAt_eq_ok]
    rfl

/-- A write of a value under a dotted key fails and leaves the document, or the parts of the key
lead to a plain scalar with the value, every other path leads where it led, keys keep their order
and new ones come last, and a second write changes nothing. Writes under two keys that are there,
neither of which leads through the other, can be made in either order. -/
theorem overwrite_exact (d : Document) (key value : String) :
    let path := keyParts key
    d.overwrite path value = Node.inPlace d (d.setAt path value) ∧
    (∀ d', d.setAt path value = .ok d' →
      (∃ n, d' = { d with root := some n } ∧ Node.SetTo value path (d.root.getD Node.emptyMapping) n) ∧
      (∃ trim : Trim, trim.tag = "" ∧ trim.isTagged = false ∧ d'.at? path = some (.scalar trim .plain value)) ∧
      (∀ p, ¬ p <+: path → ¬ path <+: p → d'.at? p = d.at? p) ∧ (∀ p, ¬ path <+: p → d.keysAt p <+: d'.keysAt p) ∧
      d'.setAt path value = .ok d') ∧
    ∀ other value', ¬ path <+: keyParts other → ¬ keyParts other <+: path →
      (d.at? path).isSome → (d.at? (keyParts other)).isSome →
      ∃ d', (d.setAt path value >>= (·.setAt (keyParts other) value')) = .ok d' ∧
        (d.setAt (keyParts other) value' >>= (·.setAt path value)) = .ok d' := by
  intro path
  refine ⟨d.overwrite_eq path value, fun d' h => ?_, fun other value' hpath hpath' h h' => ?_⟩
  · obtain ⟨n, hn, rfl⟩ := setAt_eq_ok_iff.1 h
    refine ⟨⟨n, rfl, hn⟩, hn.exists_at?_eq, fun p hp hpath => ?_, fun p hpath => ?_, setAt_eq_ok_iff.2 ⟨n, hn.self, rfl⟩⟩
    · have hne : p ≠ [] := by
        rintro rfl
        exact hp nil_prefix
      rw [at?_eq d hne]
      exact hn.at?_eq hp hpath
    · rw [keysAt_eq d]
      exact hn.prefix_keysAt hpath
  · cases hroot : d.root with
    | none => rw [at?, hroot] at h; cases h
    | some n =>
      rw [at?, hroot, bind_some] at h h'
      obtain ⟨n₁, n₂, n', h₁, h₂, h₁', h₂'⟩ := Node.SetTo.diamond value value' hpath hpath' h h'
      refine ⟨{ d with root := some n' }, ?_, ?_⟩
      · rw [setAt_eq_ok_iff.2 ⟨n₁, by rwa [hroot], rfl⟩]
        exact setAt_eq_ok_iff.2 ⟨n', h₁', rfl⟩
      · rw [setAt_eq_ok_iff.2 ⟨n₂, by rwa [hroot], rfl⟩]
        exact setAt_eq_ok_iff.2 ⟨n', h₂', rfl⟩

/-- A document with a key that is there twice. -/
def repeated : Document where
  root := some (.mapping {} false
    [(.stringKey "a", .mapping {} false [(.stringKey "b", .stringKey "1"), (.stringKey "b", .stringKey "2")]),
      (.stringKey "c", .stringKey "3")])

theorem overwrite_exact_repeated :
    repeated.overwrite (keyParts "c.d") "x" = (repeated, some ["c"]) ∧
    (∃ d trim, repeated.setAt (keyParts "a.b") "x" = .ok d ∧ d.at? (keyParts "a.b") = some (.scalar trim .plain "x") ∧
      d.at? (keyParts "c") = repeated.at? (keyParts "c")) ∧
    ∃ d, (repeated.setAt (keyParts "a.b") "x" >>= (·.setAt (keyParts "c") "y")) = .ok d ∧
      (repeated.setAt (keyParts "c") "y" >>= (·.setAt (keyParts "a.b") "x")) = .ok d := by
  have hsplit : keyParts "c.d" = ["c", "d"] ∧ keyParts "a.b" = ["a", "b"] ∧ keyParts "c" = ["c"] := by decide
  have hfail := (overwrite_exact repeated "c.d" "x").1
  obtain ⟨-, hone, hboth⟩ := overwrite_exact repeated "a.b" "x"
  specialize hboth "c" "y"
  rw [hsplit.1] at hfail ⊢
  rw [hsplit.2.1] at hone
  rw [hsplit.2.1, hsplit.2.2] at hboth ⊢
  obtain ⟨-, ⟨trim, -, -, hat⟩, hother, -⟩ := hone _ rfl
  exact ⟨hfail, ⟨_, trim, rfl, hat, hother ["c"] (by decide) (by decide)⟩, hboth (by decide) (by decide) rfl rfl⟩

end Document

end BytecodeAudit.Yaml
