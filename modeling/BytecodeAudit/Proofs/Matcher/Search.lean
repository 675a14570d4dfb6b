import Mathlib.Data.List.MinMax
import BytecodeAudit.Proofs.Bytecode.Texts
import BytecodeAudit.Proofs.Report.Rebuild
import BytecodeAudit.Scan.Findings

/-!
# Matching as a search

A matcher answers from three indexes as a search through the whole catalog would
(`Catalog.search?`):

* a call is matched by the greatest descriptor of its member, then of the property that it gets, and
  at last by the greatest wildcard of its namespace;
* a conversion is matched by the least descriptor of its opcode, unless it boxes a type parameter
  that need not be a value type.
-/

namespace BytecodeAudit

open List Option

/-! ### What a matcher depends on

Matchers over related descriptors with the same criteria give related answers to every look-up
(`alike_ofCatalog`). So matchers whose descriptors agree in criteria, id and wording find the same
issues (`Alike.match?_eq`). -/

structure Descriptor.SameCriteria (d d' : Descriptor) : Prop where
  typeName : d.typeName = d'.typeName
  method : d.method = d'.method
  opcode : d.opcode = d'.opcode

/-- Whether two descriptors match the same instructions and word their issues in the same way. -/
structure Descriptor.SameIssues (d d' : Descriptor) : Prop extends Descriptor.SameCriteria d d' where
  id : d.id = d'.id
  title : d.title = d'.title
  messageFormat : d.messageFormat = d'.messageFormat

namespace Matcher

/-- Whether the look-ups of two matchers give related descriptors. -/
structure Alike (R : Descriptor → Descriptor → Prop) (m m' : Matcher) : Prop where
  category : m.category = m'.category
  exact : ∀ k : String × String, Option.Rel R m.exact[k]? m'.exact[k]?
  wildcards : ∀ ns : String, Option.Rel R m.wildcards[ns]? m'.wildcards[ns]?
  opcodes : ∀ op : String, List.Forall₂ R (m.opcodes.getD op []) (m'.opcodes.getD op [])

section

variable {R : Descriptor → Descriptor → Prop} {m m' : Matcher}

lemma Alike.insert (h : Alike R m m') {d d' : Descriptor} (hd : R d d') (hsame : d.SameCriteria d') :
    Alike R (m.insert d) (m'.insert d') := by
  have hopcodeOnly : d'.isOpcodeOnly = d.isOpcodeOnly := by
    simp only [Descriptor.isOpcodeOnly, hsame.typeName, hsame.method, hsame.opcode]
  have hwildcard : d'.isWildcard = d.isWildcard := by simp only [Descriptor.isWildcard, hsame.method]
  unfold Matcher.insert
  rw [hopcodeOnly, hwildcard, ← hsame.typeName, ← hsame.method, ← hsame.opcode]
  split
  · -- an opcode keeps all of its descriptors, in order; a namespace or a member keeps the last
    refine { h with opcodes := fun op => ?_ }
    rw [Std.HashMap.getD_insert, Std.HashMap.getD_insert]
    split
    · exact rel_append (h.opcodes _) (.cons hd .nil)
    · exact h.opcodes op
  split
  · refine { h with wildcards := fun ns => ?_ }
    rw [Std.HashMap.getElem?_insert, Std.HashMap.getElem?_insert]
    split
    · exact .some hd
    · exact h.wildcards ns
  split
  · refine { h with exact := fun k => ?_ }
    rw [Std.HashMap.getElem?_insert, Std.HashMap.getElem?_insert]
    split
    · exact .some hd
    · exact h.exact k
  · exact h

lemma Alike.foldl_insert (hR : ∀ d d', R d d' → d.SameCriteria d') {ds ds' : List Descriptor}
    (hds : List.Forall₂ R ds ds') (h : Alike R m m') :
    Alike R (ds.foldl Matcher.insert m) (ds'.foldl Matcher.insert m') := by
  induction hds generalizing m m' with
  | nil => exact h
  | cons hd _ ih => exact ih (h.insert hd (hR _ _ hd))

lemma alike_refl (hR : ∀ d, R d d) (m : Matcher) : Alike R m m where
  category := rfl
  exact k := by
    cases m.exact[k]? with
    | none => exact .none
    | some d => exact .some (hR d)
  wildcards ns := by
    cases m.wildcards[ns]? with
    | none => exact .none
    | some d => exact .some (hR d)
  opcodes op := forall₂_same.2 fun d _ => hR d

lemma alike_empty (category : Category) : Alike R { category } { category } where
  category := rfl
  exact k := by simp
  wildcards ns := by simp
  opcodes op := by simp

lemma category_foldl_insert (ds : List Descriptor) (m : Matcher) :
    (ds.foldl Matcher.insert m).category = m.category := by
  induction ds generalizing m with
  | nil => rfl
  | cons d ds ih =>
    rw [foldl_cons, ih]
    unfold Matcher.insert
    split_ifs <;> rfl

lemma category_ofCatalog (c : Catalog) (platform : Platform) (version : String) :
    (ofCatalog c platform version).category = Category.code := category_foldl_insert ..

lemma alike_ofCatalog (hR : ∀ d d', R d d' → d.SameCriteria d') {c c' : Catalog} {p p' : Platform}
    {v v' : String} {category : Category}
    (h : List.Forall₂ R (c.list.filter (·.isApplicable p v)) (c'.list.filter (·.isApplicable p' v'))) :
    Alike R (ofCatalog c p v category) (ofCatalog c' p' v' category) :=
  (alike_empty _).foldl_insert hR h

lemma alike_ofCatalog_self {P : Descriptor → Prop} {c : Catalog} {p : Platform} {v : String} {category : Category}
    (h : ∀ d ∈ c.list.filter (·.isApplicable p v), P d) :
    Alike (fun d d' => d = d' ∧ P d) (ofCatalog c p v category) (ofCatalog c p v category) := by
  refine alike_ofCatalog ?_ (forall₂_same.2 fun d hd => ⟨rfl, h d hd⟩)
  rintro d _ ⟨rfl, -⟩
  exact ⟨rfl, rfl, rfl⟩

/-! ### Consequences -/

lemma rel_cases {x y : Option Descriptor} (h : Option.Rel R x y) :
    (x = none ∧ y = none) ∨ ∃ d d', x = some d ∧ y = some d' ∧ R d d' := by
  cases h with
  | none => exact .inl ⟨rfl, rfl⟩
  | some hd => exact .inr ⟨_, _, rfl, rfl, hd⟩

lemma Alike.member? (h : Alike R m m') (callee : MethodRef) :
    Option.Rel R (m.member? callee) (m'.member? callee) := by
  simp only [Matcher.member?]
  rcases rel_cases (h.exact (callee.declaring.fullName, callee.name)) with ⟨hx, hy⟩ | ⟨d, d', hx, hy, hd⟩
  · rw [hx, hy]
    rcases callee.property? with _ | property
    · exact .none
    · exact h.exact _
  · rw [hx, hy]
    exact .some hd

lemma Alike.describe_eq (h : Alike R m m') {d d' : Descriptor} (hd : d.SameIssues d') (i : ScannedInstruction)
    (used : String) : m.describe i d used = m'.describe i d' used := by
  have hmessage : ∀ args, d.message args = d'.message args := fun args => by
    rw [Descriptor.message, Descriptor.message, hd.messageFormat, hd.title]
  simp only [describe, issueAt, misfit, hmessage, h.category, hd.id, hd.messageFormat]

lemma Alike.match?_eq (hR : ∀ d d', R d d' → d.SameIssues d') (h : Alike R m m') (i : ScannedInstruction) :
    m.match? i = m'.match? i := by
  unfold match?
  split
  · -- a call: its member, or else the wildcard of its namespace
    refine congrArg _ (funext fun callee => ?_)
    unfold matchCall?
    rcases rel_cases (h.member? callee) with ⟨hx, hy⟩ | ⟨d, d', hx, hy, hd⟩
    · rw [hx, hy]
      rcases rel_cases (h.wildcards callee.declaring.topNamespace) with ⟨hx, hy⟩ | ⟨d, d', hx, hy, hd⟩
      · rw [hx, hy]
        rfl
      · rw [hx, hy]
        simp only [map_some, issueAt, h.category, (hR d d' hd).id]
    · rw [hx, hy]
      exact congrArg some (h.describe_eq (hR d d' hd) i _)
  split
  · -- a conversion: the first descriptor of its opcode
    have hopcodes := h.opcodes i.opcode.mnemonic
    unfold matchConversion?
    rcases hx : m.opcodes.getD i.opcode.mnemonic [] with _ | ⟨d, ds⟩
    · rw [hx, forall₂_nil_left_iff] at hopcodes
      rw [hopcodes]
    · rw [hx] at hopcodes
      obtain ⟨d', ds', hd, -, hy⟩ := forall₂_cons_left_iff.1 hopcodes
      rw [hy]
      simp only [h.describe_eq (hR d d' hd)]
  · rfl

end

lemma Alike.match?_cases {P : Descriptor → Prop} {m : Matcher} (h : Alike (fun d d' => d = d' ∧ P d) m m)
    {i : ScannedInstruction} {found : MatchedIssue} (hmatch : m.match? i = some found) :
    ∃ d, P d ∧ ((∃ used, found = m.describe i d used) ∨
      ∃ callee, i.callee = some callee ∧ found = { issue := m.issueAt i d callee.prettyName }) := by
  unfold Matcher.match? at hmatch
  split at hmatch
  · obtain ⟨callee, hcallee, hmatch⟩ := bind_eq_some_iff.1 hmatch
    unfold matchCall? at hmatch
    split at hmatch
    · rename_i d hd
      have hmember := h.member? callee
      rw [hd] at hmember
      obtain ⟨⟨-, hP⟩⟩ := hmember
      exact ⟨d, hP, .inl ⟨_, (some.inj hmatch).symm⟩⟩
    · obtain ⟨d, hd, rfl⟩ := map_eq_some_iff.1 hmatch
      have hwildcard := h.wildcards callee.declaring.topNamespace
      rw [hd] at hwildcard
      obtain ⟨⟨-, hP⟩⟩ := hwildcard
      exact ⟨d, hP, .inr ⟨callee, hcallee, rfl⟩⟩
  split at hmatch
  · unfold matchConversion? at hmatch
    split at hmatch
    · cases hmatch
    · rename_i d ds hd
      obtain ⟨-, hmatch⟩ := ite_none_left_eq_some.1 hmatch
      have hopcode := h.opcodes i.opcode.mnemonic
      rw [hd] at hopcode
      obtain ⟨⟨-, hP⟩, -⟩ := forall₂_cons.1 hopcode
      exact ⟨d, hP, .inl ⟨_, (some.inj hmatch).symm⟩⟩
  · cases hmatch

end Matcher

namespace Descriptor

def IsMemberOf (typeName : String) (d : Descriptor) : Prop :=
  d.typeName ≠ "" ∧ d.typeName = typeName ∧ d.method ≠ "" ∧ d.method ≠ "*"

/-- Whether a descriptor names all members of a namespace. -/
def IsWildcardOf (ns : String) (d : Descriptor) : Prop := d.method = "*" ∧ d.typeName = ns

def IsOpcodeOnlyOf (mnemonic : String) (d : Descriptor) : Prop :=
  d.opcode ≠ "" ∧ d.typeName = "" ∧ d.method = "" ∧ d.opcode = mnemonic

instance (typeName : String) (d : Descriptor) : Decidable (d.IsMemberOf typeName) :=
  inferInstanceAs (Decidable (_ ∧ _))

instance (ns : String) (d : Descriptor) : Decidable (d.IsWildcardOf ns) :=
  inferInstanceAs (Decidable (_ ∧ _))

instance (mnemonic : String) (d : Descriptor) : Decidable (d.IsOpcodeOnlyOf mnemonic) :=
  inferInstanceAs (Decidable (_ ∧ _))

end Descriptor

/-- Whether an instruction boxes a type parameter that need not be a value type: it must be a
reference type, or nothing is required of it, or it has a constraint that is not a value type. -/
def ScannedInstruction.boxesReference (i : ScannedInstruction) : Bool :=
  i.opcode == Opcode.box && (i.operand.bind (·.generic)).any fun g =>
    !g.mustBeStruct && (g.mustBeClass || g.constraints.isEmpty || g.constraints.any (!·.isValueType))

/-- The issue that a search through descriptors finds for a call: that of the greatest id for the
member, or else for the property that it gets, or else for its namespace. The last names the member
itself. -/
def Descriptor.searchCall? (ds : List Descriptor) (category : Category) (i : ScannedInstruction) (callee : MethodRef) :
    Option MatchedIssue :=
  let ofType := ds.filter (·.IsMemberOf callee.declaring.fullName)
  let member := (ofType.filter (callee.name = ·.method)).argmax Descriptor.id
  let property := (ofType.filter (callee.name = "get_" ++ ·.method)).argmax Descriptor.id
  let wildcard := (ds.filter (·.IsWildcardOf callee.declaring.topNamespace)).argmax Descriptor.id
  ((member.or property).map (Matcher.describe { category } i · callee.prettyName)).or
    (wildcard.map fun d => { issue := Matcher.issueAt { category } i d callee.prettyName })

/-- The issue that a search through descriptors finds for a conversion: that of the least id for the
opcode. -/
def Descriptor.searchConversion? (ds : List Descriptor) (category : Category) (i : ScannedInstruction) : Option MatchedIssue :=
  if i.boxesReference then none
  else
    ((ds.filter (·.IsOpcodeOnlyOf i.opcode.mnemonic)).argmin Descriptor.id).map
      (Matcher.describe { category } i · ((i.operand.map TypeRef.fullName).getD ""))

/-- The issue that a search through the applicable descriptors of a catalog finds for an
instruction. -/
def Catalog.search? (c : Catalog) (platform : Platform) (version : String) (category : Category)
    (i : ScannedInstruction) : Option MatchedIssue :=
  let ds := c.list.filter (·.isApplicable platform version)
  if i.opcode.isCall then i.callee.bind (Descriptor.searchCall? ds category i)
  else if i.opcode.isConversion then Descriptor.searchConversion? ds category i
  else none

/-! ### Ascending ids -/

section

variable {ds : List Descriptor}

lemma argmax_eq_getLast? (h : ds.Pairwise fun a b => a.id < b.id) : ds.argmax Descriptor.id = ds.getLast? := by
  induction ds using reverseRecOn with
  | nil => rfl
  | append_singleton ds d ih =>
    obtain ⟨hds, -, hlast⟩ := pairwise_append.1 h
    rw [argmax_concat, ih hds, getLast?_concat]
    cases hx : ds.getLast? with
    | none => rfl
    | some x => exact if_pos (hlast x (mem_of_getLast? hx) d (mem_singleton_self d))

lemma argmin_eq_head? (h : ds.Pairwise fun a b => a.id < b.id) : ds.argmin Descriptor.id = ds.head? := by
  induction ds with
  | nil => rfl
  | cons d ds ih =>
    obtain ⟨hfirst, hds⟩ := pairwise_cons.1 h
    rw [argmin_cons, ih hds, head?_cons]
    cases hx : ds.head? with
    | none => rfl
    | some x => exact if_neg (hfirst x (mem_of_mem_head? hx)).not_gt

end

namespace Matcher

/-! ### What the indexes hold -/

section

variable (m : Matcher) (d : Descriptor)

lemma insert_cases : (d.IsOpcodeOnlyOf d.opcode ∧
      m.insert d = { m with opcodes := m.opcodes.insert d.opcode (m.opcodes.getD d.opcode [] ++ [d]) }) ∨
    (d.IsWildcardOf d.typeName ∧ m.insert d = { m with wildcards := m.wildcards.insert d.typeName d }) ∨
    (d.IsMemberOf d.typeName ∧ m.insert d = { m with exact := m.exact.insert (d.typeName, d.method) d }) ∨
    (¬ d.IsOpcodeOnlyOf d.opcode ∧ ¬ d.IsWildcardOf d.typeName ∧ ¬ d.IsMemberOf d.typeName ∧ m.insert d = m) := by
  unfold insert
  split_ifs with hopcode hwildcard hmember
  · left
    simpa [Descriptor.IsOpcodeOnlyOf, Descriptor.isOpcodeOnly, and_assoc] using hopcode
  · right; left
    simpa [Descriptor.IsWildcardOf, Descriptor.isWildcard, Descriptor.wildcard] using hwildcard
  · right; right; left
    simp_all [Descriptor.IsMemberOf, Descriptor.isWildcard, Descriptor.wildcard]
  · right; right; right
    simp_all [Descriptor.IsOpcodeOnlyOf, Descriptor.isOpcodeOnly, Descriptor.IsWildcardOf, Descriptor.IsMemberOf,
      Descriptor.isWildcard, Descriptor.wildcard]

lemma exact_insert (typeName member : String) : (m.insert d).exact[(typeName, member)]? =
    if d.IsMemberOf typeName ∧ member = d.method then some d else m.exact[(typeName, member)]? := by
  obtain ⟨⟨-, hempty, -⟩, heq⟩ | ⟨⟨hstar, -⟩, heq⟩ | ⟨⟨hne, -, hmethod⟩, heq⟩ | ⟨-, -, hno, heq⟩ := m.insert_cases d
  · rw [heq, if_neg fun h => h.1.1 hempty]
  · rw [heq, if_neg fun h => h.1.2.2.2 hstar]
  · rw [heq, Std.HashMap.getElem?_insert]
    refine if_congr ?_ rfl rfl
    rw [beq_iff_eq, Prod.mk.injEq, Descriptor.IsMemberOf, eq_comm (a := member)]
    tauto
  · rw [heq, if_neg fun h => hno ⟨h.1.1, rfl, h.1.2.2⟩]

lemma wildcards_insert (ns : String) :
    (m.insert d).wildcards[ns]? = if d.IsWildcardOf ns then some d else m.wildcards[ns]? := by
  obtain ⟨⟨-, -, hempty, -⟩, heq⟩ | ⟨⟨hstar, -⟩, heq⟩ | ⟨⟨-, -, -, hno⟩, heq⟩ | ⟨-, hno, -, heq⟩ := m.insert_cases d
  · rw [heq, if_neg fun h => absurd (hempty.symm.trans h.1) (by decide)]
  · rw [heq, Std.HashMap.getElem?_insert]
    refine if_congr ?_ rfl rfl
    rw [beq_iff_eq]
    exact (and_iff_right hstar).symm
  · rw [heq, if_neg fun h => hno h.1]
  · rw [heq, if_neg fun h => hno ⟨h.1, rfl⟩]

lemma opcodes_insert (mnemonic : String) : (m.insert d).opcodes.getD mnemonic [] =
    m.opcodes.getD mnemonic [] ++ if d.IsOpcodeOnlyOf mnemonic then [d] else [] := by
  obtain ⟨⟨hne, htype, hmethod, -⟩, heq⟩ | ⟨⟨hstar, -⟩, heq⟩ | ⟨⟨hno, -⟩, heq⟩ | ⟨hno, -, -, heq⟩ := m.insert_cases d
  · rw [heq, Std.HashMap.getD_insert]
    by_cases hopcode : d.opcode = mnemonic
    · subst hopcode
      rw [if_pos BEq.rfl, if_pos ⟨hne, htype, hmethod, rfl⟩]
    · rw [if_neg (by simpa using hopcode), if_neg fun h => hopcode h.2.2.2, append_nil]
  · rw [heq, if_neg fun h => absurd (hstar.symm.trans h.2.2.1) (by decide), append_nil]
  · rw [heq, if_neg fun h => hno h.2.1, append_nil]
  · rw [heq, if_neg fun h => hno ⟨h.1, h.2.1, h.2.2.1, rfl⟩, append_nil]

end

lemma look_foldl_insert (look : Matcher → Option Descriptor) (P : Descriptor → Prop) [DecidablePred P]
    (h : ∀ m d, look (m.insert d) = if P d then some d else look m) (ds : List Descriptor) (m : Matcher) :
    look (ds.foldl insert m) = (ds.filter P).getLast?.or (look m) := by
  induction ds generalizing m with
  | nil => rfl
  | cons d ds ih =>
    rw [foldl_cons, ih, h, filter_cons]
    by_cases hd : P d
    · rw [if_pos hd, if_pos (decide_eq_true hd), getLast?_cons]
      cases (ds.filter P).getLast? <;> rfl
    · rw [if_neg hd, if_neg (by simpa using hd)]

lemma opcodes_foldl_insert (mnemonic : String) (ds : List Descriptor) (m : Matcher) :
    (ds.foldl insert m).opcodes.getD mnemonic [] =
      m.opcodes.getD mnemonic [] ++ ds.filter (·.IsOpcodeOnlyOf mnemonic) := by
  induction ds generalizing m with
  | nil => exact (append_nil _).symm
  | cons d ds ih =>
    rw [foldl_cons, ih, opcodes_insert, append_assoc, filter_cons]
    by_cases hd : d.IsOpcodeOnlyOf mnemonic <;> simp [hd]

/-! ### Descriptors by ascending ids -/

section

variable {ds : List Descriptor} (hds : ds.Pairwise fun a b => a.id < b.id) (category : Category)

include hds

lemma exact_of_ascending (typeName member : String) : (ds.foldl insert { category }).exact[(typeName, member)]? =
      ((ds.filter (·.IsMemberOf typeName)).filter (member = ·.method)).argmax Descriptor.id := by
  have hlook := look_foldl_insert (fun m => m.exact[(typeName, member)]?)
    (fun d => member = d.method ∧ d.IsMemberOf typeName) (fun m d => by simp only [exact_insert, and_comm]) ds
    { category }
  rw [argmax_eq_getLast? ((hds.filter _).filter _), List.filter_filter]
  simpa only [Std.HashMap.getElem?_empty, or_none, Bool.decide_and] using hlook

lemma wildcards_of_ascending (ns : String) :
    (ds.foldl insert { category }).wildcards[ns]? = (ds.filter (·.IsWildcardOf ns)).argmax Descriptor.id := by
  have hlook := look_foldl_insert (fun m => m.wildcards[ns]?) (Descriptor.IsWildcardOf ns)
    (fun m d => wildcards_insert m d ns) ds { category }
  rw [argmax_eq_getLast? (hds.filter _)]
  simpa only [Std.HashMap.getElem?_empty, or_none] using hlook

lemma head?_opcodes_of_ascending (mnemonic : String) :
    ((ds.foldl insert { category }).opcodes.getD mnemonic []).head? =
      (ds.filter (·.IsOpcodeOnlyOf mnemonic)).argmin Descriptor.id := by
  rw [argmin_eq_head? (hds.filter _), opcodes_foldl_insert, Std.HashMap.getD_empty, nil_append]

lemma getter_of_ascending (callee : MethodRef) : (callee.property?.bind fun property =>
      (ds.foldl insert { category }).exact[(callee.declaring.fullName, property)]?) =
      ((ds.filter (·.IsMemberOf callee.declaring.fullName)).filter
        (callee.name = "get_" ++ ·.method)).argmax Descriptor.id := by
  cases hproperty : callee.property? with
  | some property =>
    have hname := (MethodRef.property?_eq_some_iff.1 hproperty).2
    rw [bind_some, exact_of_ascending hds]
    simp only [hname, String.append_right_inj]
  | none =>
    -- a descriptor of a member has a method, and a name made from a method is the name of a getter
    rw [bind_none, eq_comm, argmax_eq_none, filter_eq_nil_iff]
    intro d hd hname
    have hmember : d.IsMemberOf callee.declaring.fullName := of_decide_eq_true (mem_filter.1 hd).2
    have hsome := MethodRef.property?_eq_some_iff.2 ⟨hmember.2.2.1, of_decide_eq_true hname⟩
    rw [hproperty] at hsome
    cases hsome

end

lemma describe_foldl_insert (ds : List Descriptor) (category : Category) (i : ScannedInstruction) (d : Descriptor)
    (used : String) : (ds.foldl insert { category }).describe i d used = describe { category } i d used := by
  simp only [describe, issueAt, category_foldl_insert]

lemma isNoConversion_eq (i : ScannedInstruction) : isNoConversion i.opcode i.operand = i.boxesReference := by
  unfold isNoConversion ScannedInstruction.boxesReference
  cases i.operand.bind (·.generic) with
  | none => simp
  | some g =>
    simp only [GenericParam.isValueType, any_some, Bool.not_or, Bool.not_and, Bool.not_not,
      not_all_eq_any_not, Bool.or_assoc]

section

variable {ds : List Descriptor} (hds : ds.Pairwise fun a b => a.id < b.id) (category : Category)
  (i : ScannedInstruction)

include hds

lemma member?_of_ascending (callee : MethodRef) : (ds.foldl insert { category }).member? callee =
      (((ds.filter (·.IsMemberOf callee.declaring.fullName)).filter (callee.name = ·.method)).argmax Descriptor.id).or
      (((ds.filter (·.IsMemberOf callee.declaring.fullName)).filter (callee.name = "get_" ++ ·.method)).argmax
        Descriptor.id) := by
  rw [← exact_of_ascending hds category, ← getter_of_ascending hds category]
  exact orElse_eq_or

lemma matchCall?_of_ascending (callee : MethodRef) :
    (ds.foldl insert { category }).matchCall? i callee = Descriptor.searchCall? ds category i callee := by
  unfold matchCall? Descriptor.searchCall?
  rw [member?_of_ascending hds, wildcards_of_ascending hds]
  dsimp only
  generalize Option.or _ _ = member
  cases member with
  | none => simp only [issueAt, category_foldl_insert, map_none, none_or]
  | some d => simp only [describe_foldl_insert, map_some, some_or]

lemma matchConversion?_of_ascending :
    (ds.foldl insert { category }).matchConversion? i = Descriptor.searchConversion? ds category i := by
  have hhead := head?_opcodes_of_ascending hds category i.opcode.mnemonic
  unfold matchConversion? Descriptor.searchConversion?
  rw [← hhead, isNoConversion_eq]
  cases (ds.foldl insert { category }).opcodes.getD i.opcode.mnemonic [] with
  | nil => exact (ite_self none).symm
  | cons d _ =>
    simp only [describe_foldl_insert, head?_cons, map_some]
    cases i.operand <;> rfl

end

end Matcher

lemma Severity.parse_default : Severity.parse Severity.default.label = .ok Severity.default := by
  rw [Severity.parse, Text.lower_trim_eq_self (by decide) (by decide)]
  decide

namespace Matcher

lemma match?_eq_search? {c : Catalog} (hc : c.IsRegistered) (platform : Platform) (version : String)
    (category : Category) (i : ScannedInstruction) :
    (ofCatalog c platform version category).match? i = c.search? platform version category i := by
  have hds := hc.areOrdered.ascending.filter (·.isApplicable platform version)
  unfold match? Catalog.search? ofCatalog
  rw [matchConversion?_of_ascending hds]
  simp only [funext (matchCall?_of_ascending hds category i)]

/-- A matcher finds what a search through the catalog finds, and so only issues of applicable
descriptors. -/
theorem match?_ofCatalog {c : Catalog} (hc : c.IsRegistered) (platform : Platform) (version : String)
    (category : Category) (i : ScannedInstruction) :
    (ofCatalog c platform version category).match? i = c.search? platform version category i ∧
      ∀ found, (ofCatalog c platform version category).match? i = some found →
        ∃ d ∈ c.list, d.isApplicable platform version = true ∧ found.issue.descriptorId = d.id := by
  refine ⟨match?_eq_search? hc platform version category i, fun found hfound => ?_⟩
  obtain ⟨d, ⟨hd, happlicable⟩, ⟨used, rfl⟩ | ⟨callee, -, rfl⟩⟩ :=
    (alike_ofCatalog_self fun d hd => List.mem_filter.1 hd).match?_cases hfound
  · exact ⟨d, hd, happlicable, rfl⟩
  · exact ⟨d, hd, happlicable, rfl⟩

def competing : List Descriptor :=
  [{ id := "PAC0001", title := "T", opcode := "box" },
   { id := "PAC0002", title := "T", typeName := "N.C", method := "Size" },
   { id := "PAC0003", title := "T", opcode := "box" },
   { id := "PAC0004", title := "T", typeName := "N.C", method := "Size" },
   { id := "PAC0005", title := "T", typeName := "N.C", method := "Size", platforms := [.ios] },
   { id := "PAC0006", title := "T", typeName := "N", method := "*" }]

lemma isRegistered_competing : Catalog.IsRegistered ⟨competing.map fun d => { descriptor := d }⟩ := by
  have hordered : Catalog.AreOrdered competing := by
    refine ⟨by decide, ?_⟩
    simp only [competing, forall_mem_cons]
    refine ⟨?_, ?_, ?_, ?_, ?_, ?_, nofun⟩ <;>
    · rw [Descriptor.validate, Severity.parse_default]
      rfl
  exact (Catalog.IsRegistered.empty.registerAll (Catalog.registerAll_list hordered)).1

def useOf (member : String) : ScannedInstruction where
  opcode := .callVirtual
  offset := 0
  moduleName := "M"
  caller := { declaring := { name := "P" }, name := "main" }
  callee := some { declaring := { ns := "N", name := "C" }, name := member }
  operand := none
  location := none

/-- A conversion of a value whose type is a parameter. -/
def boxingOf (g : GenericParam) : ScannedInstruction :=
  { useOf "" with opcode := .box, callee := none, operand := some { name := g.name, generic := some g } }

theorem match?_ofCatalog_competing :
    let c : Catalog := ⟨competing.map fun d => { descriptor := d }⟩
    let found (i : ScannedInstruction) := ((ofCatalog c .android "").match? i).map (·.issue.descriptorId)
    c.IsRegistered ∧ found (useOf "get_Size") = some "PAC0004" ∧ found (useOf "Reset") = some "PAC0006" ∧
      found (boxingOf { name := "X", mustBeStruct := true }) = some "PAC0001" ∧
      found (boxingOf { name := "X" }) = none := by
  intro c found
  have hfound (i : ScannedInstruction) :
      found i = (c.search? .android "" .code i).map (·.issue.descriptorId) :=
    congrArg (Option.map _) (match?_ofCatalog isRegistered_competing .android "" .code i).1
  simp only [hfound]
  exact ⟨isRegistered_competing, by decide +kernel, by decide +kernel, by decide +kernel, by decide +kernel⟩

end Matcher

end BytecodeAudit
