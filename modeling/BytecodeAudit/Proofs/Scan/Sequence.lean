import Mathlib.Data.Prod.Lex
import BytecodeAudit.Proofs.Ascending
import BytecodeAudit.Proofs.Scan.SymbolFiles

/-!
# The sequence that a scan yields

An instruction has a place in its module (`InstructionPlace`): the steps from type to nested type,
the number of its method and its own. What a scan is to report there is said place by place
(`Module.reportAt?`). A pass yields these reports in the order of the places, each once
(`isEnumeration_instructions`).

That a list enumerates the values of a partial function (`IsEnumeration`) is stable under nesting
(`IsEnumeration.flatMap`), so each of the nested loops is one step.

A pass goes through the same instructions, but ends when its consumer wants no more. The answer
comes up through the loops over a body, a type and its nested types as if there were one loop over
what the scan comes across (`Module.pass_eq`).
-/

namespace BytecodeAudit

open List

open ScanEvent (instruction?)

/-! ### Enumerations -/

/-- Whether a list holds the values of a partial function in ascending order of its arguments, each
once. -/
def IsEnumeration {ι α : Type} (lt : ι → ι → Prop) (value? : ι → Option α) (xs : List α) : Prop :=
  ∃ args : List ι, args.Pairwise lt ∧ args.map value? = xs.map some ∧ ∀ i, (value? i).isSome = true → i ∈ args

namespace IsEnumeration

variable {ι κ α β : Type} {lt : ι → ι → Prop} {lt' : κ → κ → Prop} {xs : List α}

lemma nil {value? : ι → Option α} (h : ∀ i, value? i = none) : IsEnumeration lt value? [] :=
  ⟨[], .nil, rfl, fun i hi => by simp [h i] at hi⟩

/-- Where the arguments are a first one and those of an ascending function, the value of the first
one stands before the others. -/
lemma first {value? : ι → Option α} {first : ι} {other : κ → ι} (hascending : ∀ a b, lt' a b → lt (other a) (other b))
    (hfirst : ∀ k, lt first (other k)) (hcases : ∀ i, i = first ∨ ∃ k, i = other k)
    (h : IsEnumeration lt' (fun k => value? (other k)) xs) : IsEnumeration lt value? ((value? first).toList ++ xs) := by
  obtain ⟨args, hargs, hvalues, hall⟩ := h
  have hothers : (args.map other).Pairwise lt := pairwise_map.2 (hargs.imp (hascending _ _))
  rcases hvalue : value? first with _ | a
  · refine ⟨args.map other, hothers, by rwa [map_map], fun i hi => ?_⟩
    rcases hcases i with rfl | ⟨k, rfl⟩
    · rw [hvalue] at hi
      cases hi
    · exact mem_map_of_mem (hall k hi)
  · refine ⟨first :: args.map other, pairwise_cons.2 ⟨fun i hi => ?_, hothers⟩, ?_, fun i hi => ?_⟩
    · obtain ⟨k, -, rfl⟩ := mem_map.1 hi
      exact hfirst k
    · rw [map_cons, hvalue, map_map]
      exact congrArg (some a :: ·) hvalues
    · rcases hcases i with rfl | ⟨k, rfl⟩
      · exact mem_cons_self
      · exact mem_cons_of_mem _ (mem_map_of_mem (hall k hi))

lemma zero {value? : Nat → Option α} (h : IsEnumeration (· < ·) (fun k => value? (k + 1)) xs) :
    IsEnumeration (· < ·) value? ((value? 0).toList ++ xs) := by
  refine h.first (fun a b hab => ?_) (fun k => ?_) fun i => ?_
  · exact Nat.succ_lt_succ hab
  · exact Nat.succ_pos k
  · cases i with
    | zero => exact .inl rfl
    | succ k => exact .inr ⟨k, rfl⟩

/-- The way that ends where it starts comes before all others, and those by their first steps. -/
lemma here {value? : List Nat → Option α}
    (h : IsEnumeration (Prod.Lex (· < ·) (· < ·)) (fun p => value? (p.1 :: p.2)) xs) :
    IsEnumeration (· < ·) value? ((value? []).toList ++ xs) := by
  refine h.first (fun p q hpq => ?_) (fun _ => .nil) fun path => ?_
  · cases hpq with
    | left _ _ hlt => exact .rel hlt
    | right _ hlt => exact .cons hlt
  · cases path with
    | nil => exact .inl rfl
    | cons i path => exact .inr ⟨(i, path), rfl⟩

lemma ofList (xs : List α) : IsEnumeration (· < ·) (fun k : Nat => xs[k]?) xs := by
  induction xs with
  | nil => exact nil fun _ => rfl
  | cons x xs ih => exact zero ih

lemma mem_iff {value? : ι → Option α} (h : IsEnumeration lt value? xs) {a : α} : a ∈ xs ↔ ∃ i, value? i = some a := by
  obtain ⟨args, -, hvalues, hall⟩ := h
  have hmem : a ∈ xs ↔ some a ∈ args.map value? := by
    rw [hvalues, mem_map_of_injective (Option.some_injective α)]
  rw [hmem, mem_map]
  constructor
  · rintro ⟨i, -, hi⟩
    exact ⟨i, hi⟩
  · rintro ⟨i, hi⟩
    exact ⟨i, hall i (by rw [hi]; rfl), hi⟩

/-- Enumerations one inside another are enumerated by pairs of arguments, those of the outer one
first. -/
lemma flatMap {outer? : ι → Option α} {inner? : α → κ → Option β} {ys : α → List β}
    (houter : IsEnumeration lt outer? xs) (hinner : ∀ a ∈ xs, IsEnumeration lt' (inner? a) (ys a)) :
    IsEnumeration (Prod.Lex lt lt') (fun p => (outer? p.1).bind (inner? · p.2)) (xs.flatMap ys) := by
  obtain ⟨args, hargs, hvalues, hall⟩ := houter
  -- over the outer arguments; the pairs found so far have theirs among those that were passed
  suffices h : ∃ pairs : List (ι × κ), pairs.Pairwise (Prod.Lex lt lt') ∧
      pairs.map (fun p => (outer? p.1).bind (inner? · p.2)) = (xs.flatMap ys).map some ∧
      (∀ p ∈ pairs, p.1 ∈ args) ∧
      ∀ p : ι × κ, p.1 ∈ args → ((outer? p.1).bind (inner? · p.2)).isSome = true → p ∈ pairs by
    obtain ⟨pairs, hpairs, hvalues, -, hmem⟩ := h
    refine ⟨pairs, hpairs, hvalues, fun p hp => hmem p (hall p.1 ?_) hp⟩
    exact Option.isSome_of_isSome_bind hp
  clear hall
  induction args generalizing xs with
  | nil =>
    obtain rfl : xs = [] := by simpa using hvalues.symm
    exact ⟨[], .nil, rfl, nofun, nofun⟩
  | cons i args ih =>
    obtain _ | ⟨a, xs⟩ := xs
    · cases hvalues
    obtain ⟨hi, hrest⟩ := List.cons.inj hvalues
    obtain ⟨hbefore, hargs⟩ := pairwise_cons.1 hargs
    obtain ⟨pairs, hpairs, hpvalues, hpargs, hpmem⟩ := ih (fun b hb => hinner b (mem_cons_of_mem a hb)) hargs hrest
    obtain ⟨ks, hks, hkvalues, hkmem⟩ := hinner a mem_cons_self
    refine ⟨ks.map (i, ·) ++ pairs, ?_, ?_, ?_, ?_⟩
    · refine pairwise_append.2 ⟨pairwise_map.2 (hks.imp fun hk => .right i hk), hpairs, fun p hp q hq => ?_⟩
      obtain ⟨k, -, rfl⟩ := mem_map.1 hp
      exact .left k q.2 (hbefore q.1 (hpargs q hq))
    · have hhead : (ks.map (i, ·)).map (fun p => (outer? p.1).bind (inner? · p.2)) = (ys a).map some := by
        rw [← hkvalues, map_map]
        exact map_congr_left fun k _ => by simp [hi]
      rw [map_append, hhead, hpvalues, flatMap_cons, map_append]
    · intro p hp
      rcases mem_append.1 hp with hp | hp
      · obtain ⟨k, -, rfl⟩ := mem_map.1 hp
        exact mem_cons_self
      · exact mem_cons_of_mem i (hpargs p hp)
    · rintro ⟨j, k⟩ hj hsome
      rcases mem_cons.1 hj with rfl | hj
      · refine mem_append_left _ (mem_map_of_mem (hkmem k ?_))
        simpa [hi] using hsome
      · exact mem_append_right _ (hpmem _ hj hsome)

end IsEnumeration

/-! ### The places of instructions -/

/-- A place in a module: the steps that lead to a type, the number of a method of it, and that of an
instruction. -/
abbrev InstructionPlace := (List Nat × Nat) × Nat

/-- The order of places. A type comes before those that further steps lead to, and those before its
next sibling. -/
def InstructionPlace.Before : InstructionPlace → InstructionPlace → Prop :=
  Prod.Lex (Prod.Lex (· < ·) (· < ·)) (· < ·)

/-- The type that some steps lead to from another one: each is the number of a type nested in the
one before. -/
def TypeDef.below? (t : TypeDef) : List Nat → Option TypeDef
  | [] => some t
  | i :: path => t.nested[i]?.bind fun n => n.below? path

namespace Module

def typeAt? (m : Module) : List Nat → Option TypeDef
  | [] => none
  | i :: path => (m.types.getD [])[i]?.bind fun t => t.below? path

mutual

lemma isEnumeration_walkType : ∀ t : TypeDef, IsEnumeration (· < ·) t.below? (walkType t)
  | { ns, name, isValueType, genericParams, methods, nested, declaring } => by
    rw [walkType, walkTypes_eq_flatMap]
    exact .here ((IsEnumeration.ofList nested).flatMap fun n hn => isEnumeration_walkType_of_mem nested n hn)

lemma isEnumeration_walkType_of_mem :
    ∀ (ts : List TypeDef) (t : TypeDef), t ∈ ts → IsEnumeration (· < ·) t.below? (walkType t)
  | [], _, h => nomatch h
  | u :: ts, t, h => by
    rcases mem_cons.1 h with heq | h
    · rw [heq]
      exact isEnumeration_walkType u
    · exact isEnumeration_walkType_of_mem ts t h

end

variable (m : Module)

lemma isEnumeration_walk : IsEnumeration (· < ·) m.typeAt? m.walk := by
  rw [walk, walkTypes_eq_flatMap]
  exact .here ((IsEnumeration.ofList _).flatMap fun t _ => isEnumeration_walkType t)

def methodOf? (m : Module) (place : List Nat × Nat) : Option (TypeRef × MethodDef) :=
  (m.typeAt? place.1).bind fun t => t.methods[place.2]?.map (t.ref, ·)

lemma isEnumeration_methods : IsEnumeration (Prod.Lex (· < ·) (· < ·)) m.methodOf? m.methods := by
  have hmethods (t : TypeDef) :
      IsEnumeration (· < ·) (fun j : Nat => t.methods[j]?.map (t.ref, ·)) (t.methods.map (t.ref, ·)) := by
    simpa only [getElem?_map] using IsEnumeration.ofList (t.methods.map (t.ref, ·))
  exact m.isEnumeration_walk.flatMap fun t _ => hmethods t

def lastLocation (m : Module) (token : UInt32) (is : List Instruction) : Option Location :=
  (is.reverse.findSome? fun i => m.pointAt? token i.offset).map pointLocation

def soughtMnemonics : List String := ["call", "callvirt", "newobj", "box", "unbox", "unbox.any"]

def report (m : Module) (caller : MethodRef) (i : Instruction) (location : Option Location) : ScannedInstruction :=
  { opcode := i.opcode, offset := i.offset, moduleName := m.name, caller, callee := i.method, operand := i.typeRef,
    location }

/-- What a scan reports of the instruction with a number in a method, if it looks for such a one and
the method has a point. Its place is that of the closest instruction up to it with a visible point
at its offset. -/
def reportOf? (m : Module) (owner : TypeRef) (method : MethodDef) (k : Nat) : Option ScannedInstruction :=
  method.body[k]?.bind fun i =>
    if m.points method.token ≠ [] ∧ i.opcode.mnemonic ∈ soughtMnemonics then
      some (m.report (method.ref { owner with moduleName := m.name }) i
        (m.lastLocation method.token (method.body.take (k + 1))))
    else none

lemma isOfInterest_iff (o : Opcode) : o.isOfInterest ↔ o.mnemonic ∈ soughtMnemonics := by
  obtain ⟨mnemonic⟩ := o
  simp [Opcode.isOfInterest, Opcode.isCall, Opcode.isConversion, soughtMnemonics, Opcode.call, Opcode.callVirtual,
    Opcode.newObject, Opcode.box, Opcode.unbox, Opcode.unboxAny, or_assoc]

lemma lastLocation_concat (token : UInt32) (is : List Instruction) (i : Instruction) :
    m.lastLocation token (is ++ [i]) =
      match m.pointAt? token i.offset with
      | some p => some (pointLocation p)
      | none => m.lastLocation token is := by
  rw [lastLocation, reverse_append, reverse_singleton, singleton_append, findSome?_cons]
  cases m.pointAt? token i.offset <;> rfl

lemma scanBody_cons (all : Bool) (token : UInt32) (caller : MethodRef) (passed is : List Instruction)
    (i : Instruction) :
    m.scanBody all token caller (m.lastLocation token passed) (i :: is) =
      (if all || i.opcode.isOfInterest then
        [.instruction (m.report caller i (m.lastLocation token (passed ++ [i])))]
      else []) ++ m.scanBody all token caller (m.lastLocation token (passed ++ [i])) is := by
  rw [lastLocation_concat, scanBody]
  split <;> rfl

/-- What a scan yields of the rest of a body behind some instructions. -/
lemma isEnumeration_scanBody (token : UInt32) (caller : MethodRef) (passed body : List Instruction) :
    IsEnumeration (· < ·)
      (fun k : Nat => body[k]?.bind fun i =>
        if i.opcode.isOfInterest then
          some (m.report caller i (m.lastLocation token (passed ++ body.take (k + 1))))
        else none)
      ((m.scanBody false token caller (m.lastLocation token passed) body).filterMap instruction?) := by
  induction body generalizing passed with
  | nil => exact .nil fun _ => rfl
  | cons i is ih =>
    have hfirst : ((if false || i.opcode.isOfInterest then
          [ScanEvent.instruction (m.report caller i (m.lastLocation token (passed ++ [i])))]
        else []).filterMap instruction?) =
        (if i.opcode.isOfInterest then some (m.report caller i (m.lastLocation token (passed ++ [i])))
        else none).toList := by
      cases i.opcode.isOfInterest <;> rfl
    have hrest := ih (passed ++ [i])
    simp only [append_assoc, singleton_append] at hrest
    rw [scanBody_cons, filterMap_append, hfirst]
    exact IsEnumeration.zero hrest

lemma isEnumeration_scanMethod (owner : TypeRef) (method : MethodDef) :
    IsEnumeration (· < ·) (m.reportOf? owner method) ((m.scanMethod false owner method).filterMap instruction?) := by
  rw [scanMethod, hasPoints_eq]
  split
  · rename_i hbody
    refine .nil fun k => ?_
    rw [reportOf?, isEmpty_iff.1 hbody]
    rfl
  split
  · rename_i hpoints
    refine .nil fun k => ?_
    have hnil : m.points method.token = [] := by simpa using hpoints
    simp [reportOf?, hnil]
  · rename_i hpoints
    have hsome : m.points method.token ≠ [] := by simpa using hpoints
    have hreport : m.reportOf? owner method = fun k : Nat => method.body[k]?.bind fun i =>
        if i.opcode.isOfInterest then
          some (m.report (method.ref { owner with moduleName := m.name }) i
            (m.lastLocation method.token (method.body.take (k + 1))))
        else none := by
      funext k
      simp [reportOf?, hsome, isOfInterest_iff]
    rw [hreport]
    exact m.isEnumeration_scanBody method.token _ [] method.body

def reportAt? (m : Module) (place : InstructionPlace) : Option ScannedInstruction :=
  (m.methodOf? place.1).bind fun (owner, method) => m.reportOf? owner method place.2

lemma isEnumeration_instructions : IsEnumeration InstructionPlace.Before m.reportAt? m.instructions := by
  rw [instructions, scan, filterMap_flatMap]
  exact m.isEnumeration_methods.flatMap fun x _ => m.isEnumeration_scanMethod x.1 x.2

/-! ### All instructions -/

lemma filter_scanBody (token : UInt32) (caller : MethodRef) (near : Option Location) (body : List Instruction) :
    ((m.scanBody true token caller near body).filterMap instruction?).filter (·.opcode.isOfInterest) =
      (m.scanBody false token caller near body).filterMap instruction? := by
  induction body generalizing near with
  | nil => rfl
  | cons i is ih =>
    simp only [scanBody, Bool.true_or, if_true, Bool.false_or, filterMap_cons, instruction?]
    cases hinterest : i.opcode.isOfInterest with
    | true => simp [hinterest, ih, instruction?]
    | false => simp [hinterest, ih]

lemma filter_scan_all : ((m.scan true).filterMap instruction?).filter (·.opcode.isOfInterest) = m.instructions := by
  have hmethod (owner : TypeRef) (method : MethodDef) :
      ((m.scanMethod true owner method).filterMap instruction?).filter (·.opcode.isOfInterest) =
        (m.scanMethod false owner method).filterMap instruction? := by
    unfold scanMethod
    split
    · rfl
    split
    · rfl
    · exact m.filter_scanBody ..
  rw [instructions, scan, scan, filterMap_flatMap, filterMap_flatMap, filter_flatMap]
  exact flatMap_congr fun x _ => hmethod x.1 x.2

/-! ### Skipped methods -/

/-- Whether a token is that of a method with a body and without a point. -/
def Skips (m : Module) (token : UInt32) : Prop :=
  ∃ place owner method, m.methodOf? place = some (owner, method) ∧ method.token = token ∧ method.body ≠ [] ∧
    m.points token = []

lemma skipped_not_mem_scanBody (all : Bool) (token : UInt32) (caller : MethodRef)
    (near : Option Location) (body : List Instruction) (name : String) (t : UInt32) :
    .skipped name t ∉ m.scanBody all token caller near body := by
  induction body generalizing near with
  | nil => exact not_mem_nil
  | cons i is ih =>
    simp only [scanBody]
    split
    · rw [mem_cons, not_or]
      exact ⟨ScanEvent.noConfusion, ih _⟩
    · exact ih _

lemma skipped_mem_scanMethod_iff {m : Module} {all : Bool} {owner : TypeRef} {method : MethodDef} {name : String}
    {token : UInt32} : .skipped name token ∈ m.scanMethod all owner method ↔
      name = m.name ∧ method.token = token ∧ method.body ≠ [] ∧ m.points token = [] := by
  rw [scanMethod, hasPoints_eq]
  split
  · rename_i hbody
    simp [isEmpty_iff.1 hbody]
  rename_i hbody
  split
  · rename_i hpoints
    have hnil : m.points method.token = [] := by simpa using hpoints
    rw [mem_singleton, ScanEvent.skipped.injEq]
    constructor
    · rintro ⟨rfl, rfl⟩
      exact ⟨rfl, rfl, fun h => hbody (isEmpty_iff.2 h), hnil⟩
    · rintro ⟨rfl, rfl, -⟩
      exact ⟨rfl, rfl⟩
  · rename_i hpoints
    refine iff_of_false (fun h => m.skipped_not_mem_scanBody _ _ _ _ _ _ _ h) ?_
    rintro ⟨-, rfl, -, hnil⟩
    simp [hnil] at hpoints

lemma skipped_mem_scan_iff {m : Module} {all : Bool} {name : String} {token : UInt32} :
    .skipped name token ∈ m.scan all ↔ name = m.name ∧ m.Skips token := by
  rw [scan, mem_flatMap]
  constructor
  · rintro ⟨⟨owner, method⟩, hmethod, h⟩
    obtain ⟨rfl, hskipped⟩ := skipped_mem_scanMethod_iff.1 h
    obtain ⟨place, hplace⟩ := m.isEnumeration_methods.mem_iff.1 hmethod
    exact ⟨rfl, place, owner, method, hplace, hskipped⟩
  · rintro ⟨rfl, place, owner, method, hplace, hskipped⟩
    exact ⟨_, m.isEnumeration_methods.mem_iff.2 ⟨place, hplace⟩, skipped_mem_scanMethod_iff.2 ⟨rfl, hskipped⟩⟩

end Module

namespace SkippedMethods

def Holds (es : List (String × List UInt32)) (name : String) (token : UInt32) : Prop :=
  ∃ e ∈ es, e.1 = name ∧ token ∈ e.2

/-- Whether the names of entries and the tokens of each are in ascending order. -/
structure AreOrdered (es : List (String × List UInt32)) : Prop where
  names : es.Pairwise fun a b => Text.rank a.1 < Text.rank b.1
  tokens : ∀ e ∈ es, e.2.Pairwise (· < ·)

variable {es : List (String × List UInt32)} {e : String × List UInt32} {name : String} {token : UInt32}

lemma insertToken_eq_put (ts : List UInt32) : insertToken token ts = Ascending.put UInt32.toNat id token ts := by
  induction ts with
  | nil => rfl
  | cons t ts ih =>
    simp only [insertToken, Ascending.put, ih, beq_iff_eq, UInt32.toNat_inj, UInt32.lt_iff_toNat_lt, id_eq]

lemma mem_insertToken {t : UInt32} {ts : List UInt32} : t ∈ insertToken token ts ↔ t = token ∨ t ∈ ts := by
  induction ts with
  | nil => simp [insertToken]
  | cons u ts ih =>
    rw [insertToken]
    split
    · rename_i heq
      simp [beq_iff_eq.1 heq]
    split
    · exact mem_cons
    · rw [mem_cons, ih, mem_cons, or_left_comm]

lemma pairwise_insertToken {ts : List UInt32} (h : ts.Pairwise (· < ·)) :
    (insertToken token ts).Pairwise (· < ·) := by
  simp only [UInt32.lt_iff_toNat_lt] at h ⊢
  rw [insertToken_eq_put]
  exact Ascending.pairwise_put (fun _ => rfl) h

lemma holds_cons_iff : Holds (e :: es) name token ↔ e.1 = name ∧ token ∈ e.2 ∨ Holds es name token := by
  simp only [Holds, mem_cons, exists_eq_or_imp]

lemma holds_insert_iff {n : String} {t : UInt32} :
    Holds (insert name token es) n t ↔ name = n ∧ t = token ∨ Holds es n t := by
  induction es with
  | nil => simp [Holds, insert, Text.place]
  | cons e es ih =>
    obtain ⟨u, ts⟩ := e
    rw [insert] at ih ⊢
    rw [Text.place]
    split
    · rename_i heq
      obtain rfl := beq_iff_eq.1 heq
      rw [holds_cons_iff, holds_cons_iff, mem_insertToken, and_or_left, or_assoc]
    split
    · rw [holds_cons_iff, mem_singleton]
    · rw [holds_cons_iff, ih, holds_cons_iff, or_left_comm]

lemma areOrdered_insert (h : AreOrdered es) : AreOrdered (insert name token es) := by
  rw [insert, Ascending.place_eq_put]
  refine ⟨Ascending.pairwise_put (fun _ => rfl) h.names, fun f hf => ?_⟩
  rcases Ascending.mem_of_mem_put hf with rfl | hf | ⟨e, he, -, rfl⟩
  · exact pairwise_singleton _ _
  · exact h.tokens f hf
  · exact pairwise_insertToken (h.tokens e he)

lemma insert_of_holds (h : AreOrdered es) (hes : Holds es name token) : insert name token es = es := by
  obtain ⟨e, he, rfl, htoken⟩ := hes
  have hsame : insertToken token e.2 = e.2 := by
    have htokens := h.tokens e he
    simp only [UInt32.lt_iff_toNat_lt] at htokens
    rw [insertToken_eq_put]
    exact Ascending.put_eq_self htokens htoken rfl rfl
  rw [insert, Ascending.place_eq_put]
  exact Ascending.put_eq_self h.names he rfl (Prod.ext rfl hsame)

variable {s : SkippedMethods}

lemma mem_ofModule_iff (h : AreOrdered s.tokens) : token ∈ s.ofModule name ↔ Holds s.tokens name token := by
  obtain ⟨es⟩ := s
  induction es with
  | nil => simp [ofModule, Holds]
  | cons e es ih =>
    obtain ⟨u, ts⟩ := e
    obtain ⟨hu, hnames⟩ := pairwise_cons.1 h.names
    have hordered : AreOrdered es := ⟨hnames, fun f hf => h.tokens f (mem_cons_of_mem _ hf)⟩
    rw [holds_cons_iff, ofModule, find?_cons]
    dsimp only
    by_cases hname : u = name
    · have hnone : ¬ Holds es name token := by
        rintro ⟨f, hf, rfl, -⟩
        exact (hu f hf).ne (congrArg _ hname)
      simp [hname, hnone]
    · rw [beq_eq_false_iff_ne.2 hname]
      simp only [hname, false_and, false_or]
      exact ih hordered

/-! ### Passes -/

lemma record_skipped (s : SkippedMethods) (name : String) (token : UInt32) (es : List ScanEvent) :
    s.record (.skipped name token :: es) = record ⟨insert name token s.tokens⟩ es := rfl

lemma record_instruction (s : SkippedMethods) (i : ScannedInstruction) (es : List ScanEvent) :
    s.record (.instruction i :: es) = s.record es := rfl

lemma areOrdered_record (h : AreOrdered s.tokens) (es : List ScanEvent) : AreOrdered (s.record es).tokens := by
  induction es generalizing s with
  | nil => exact h
  | cons e es ih =>
    cases e with
    | instruction i => exact ih h
    | skipped name token => exact ih (s := ⟨insert name token s.tokens⟩) (areOrdered_insert h)

lemma holds_record_iff {es : List ScanEvent} :
    Holds (s.record es).tokens name token ↔ Holds s.tokens name token ∨ .skipped name token ∈ es := by
  induction es generalizing s with
  | nil => simp [record]
  | cons e es ih =>
    cases e with
    | instruction i => simp [record_instruction, ih]
    | skipped n t =>
      rw [record_skipped, ih, holds_insert_iff, mem_cons, ScanEvent.skipped.injEq, eq_comm, or_assoc, or_left_comm]

end SkippedMethods

section Loops

variable {σ α β : Type} (visit : σ → α → σ × Bool) (s : σ)

lemma loopWhile_append (xs ys : List α) : loopWhile visit s (xs ++ ys) =
    match loopWhile visit s xs with
    | (s, true) => loopWhile visit s ys
    | (s, false) => (s, false) := by
  induction xs generalizing s with
  | nil => rfl
  | cons x xs ih =>
    rw [cons_append, loopWhile, loopWhile]
    split
    · exact ih _
    · rfl

/-- Loops one inside another, of which the outer one ends with the inner one. -/
lemma loopWhile_flatMap (inner : β → List α) (xs : List β) :
    loopWhile (fun s x => loopWhile visit s (inner x)) s xs = loopWhile visit s (xs.flatMap inner) := by
  induction xs generalizing s with
  | nil => rfl
  | cons x xs ih =>
    rw [flatMap_cons, loopWhile_append, loopWhile]
    rcases loopWhile visit s (inner x) with ⟨s, _ | _⟩
    · rfl
    · exact ih s

end Loops

/-- Hands an instruction to the consumer of a pass, or records a skipped method. -/
def ScanEvent.feed {σ : Type} (take : σ → ScannedInstruction → σ × Bool) (s : Pass σ) : ScanEvent → Pass σ × Bool
  | .instruction i => ({ s with consumer := (take s.consumer i).1 }, (take s.consumer i).2)
  | .skipped name token => ({ s with skipped := ⟨SkippedMethods.insert name token s.skipped.tokens⟩ }, true)

open ScanEvent (feed)

namespace Module

section Pass

variable {σ : Type} (m : Module) (all : Bool) (take : σ → ScannedInstruction → σ × Bool) (s : Pass σ)

lemma passBody_eq (token : UInt32) (caller : MethodRef) (near : Option Location) (body : List Instruction) :
    m.passBody all take token caller near s body =
      loopWhile (feed take) s (m.scanBody all token caller near body) := by
  induction body generalizing near s with
  | nil => rfl
  | cons i is ih =>
    simp only [passBody, scanBody]
    split
    · rw [loopWhile, feed]
      split <;> rename_i htake <;> rw [htake]
      exact ih _ _
    · exact ih _ _

lemma passMethod_eq (owner : TypeRef) (method : MethodDef) :
    m.passMethod all take owner s method = loopWhile (feed take) s (m.scanMethod all owner method) := by
  rw [passMethod, scanMethod]
  split
  · rfl
  split
  · rfl
  · exact m.passBody_eq ..

/-- What a scan comes across in a type, without those nested in it. -/
def scanOwn (t : TypeDef) : List ScanEvent := t.methods.flatMap (m.scanMethod all t.ref)

lemma loopWhile_passMethod (owner : TypeRef) (methods : List MethodDef) :
    loopWhile (m.passMethod all take owner) s methods =
      loopWhile (feed take) s (methods.flatMap (m.scanMethod all owner)) := by
  rw [← loopWhile_flatMap]
  exact congrArg (loopWhile · s methods) (funext₂ fun s method => m.passMethod_eq all take s owner method)

mutual

lemma passType_eq (s : Pass σ) : ∀ t : TypeDef,
    m.passType all take s t = loopWhile (feed take) s ((walkType t).flatMap (m.scanOwn all))
  | { ns, name, isValueType, genericParams, methods, nested, declaring } => by
    rw [passType, walkType, flatMap_cons, loopWhile_append, scanOwn]
    simp only [loopWhile_passMethod]
    rcases loopWhile (feed take) s _ with ⟨s, _ | _⟩
    · rfl
    · exact passTypes_eq s nested

lemma passTypes_eq (s : Pass σ) : ∀ ts : List TypeDef,
    m.passTypes all take s ts = loopWhile (feed take) s ((walkTypes ts).flatMap (m.scanOwn all))
  | [] => rfl
  | t :: ts => by
    rw [passTypes, walkTypes, flatMap_append, loopWhile_append, passType_eq s t]
    rcases loopWhile (feed take) s _ with ⟨s, _ | _⟩
    · rfl
    · exact passTypes_eq s ts

end

lemma pass_eq : m.pass all take s = loopWhile (feed take) s (m.scan all) := by
  rw [pass, passTypes_eq, scan, methods, flatMap_assoc]
  refine congrArg (loopWhile _ s) (flatMap_congr fun t _ => ?_)
  rw [scanOwn, flatMap_map]

end Pass

end Module

section Consumers

variable {σ : Type} (take : σ → ScannedInstruction → σ × Bool)

/-- The consumer sees the instructions and nothing else. -/
lemma consumer_loopWhile_feed (s : Pass σ) (es : List ScanEvent) :
    (loopWhile (feed take) s es).1.consumer = (loopWhile take s.consumer (es.filterMap instruction?)).1 := by
  induction es generalizing s with
  | nil => rfl
  | cons e es ih =>
    cases e with
    | instruction i =>
      rw [loopWhile, feed, filterMap_cons, instruction?, loopWhile]
      rcases take s.consumer i with ⟨c, _ | _⟩
      · rfl
      · exact ih _
    | skipped name token => exact ih _

lemma skipped_loopWhile_feed {s : Pass σ} (h : SkippedMethods.AreOrdered s.skipped.tokens) {es : List ScanEvent}
    (hes : ∀ name token, .skipped name token ∈ es → SkippedMethods.Holds s.skipped.tokens name token) :
    (loopWhile (feed take) s es).1.skipped = s.skipped := by
  induction es generalizing s with
  | nil => rfl
  | cons e es ih =>
    have hrest : ∀ name token, .skipped name token ∈ es → SkippedMethods.Holds s.skipped.tokens name token :=
      fun name token hmem => hes name token (mem_cons_of_mem e hmem)
    cases e with
    | instruction i =>
      rw [loopWhile, feed]
      rcases take s.consumer i with ⟨c, _ | _⟩
      · rfl
      · exact ih (s := { s with consumer := c }) h hrest
    | skipped name token =>
      rw [loopWhile, feed, SkippedMethods.insert_of_holds h (hes name token mem_cons_self)]
      exact ih h hrest

lemma loopWhile_keepUpTo (n : Nat) (kept is : List ScannedInstruction) :
    (loopWhile (Module.keepUpTo n) kept is).1 = if n ≤ kept.length then kept ++ is else (kept ++ is).take n := by
  induction is generalizing kept with
  | nil =>
    rw [append_nil]
    split
    · rfl
    · next hn => exact (take_of_length_le (Nat.le_of_not_le hn)).symm
  | cons i is ih =>
    rw [loopWhile, Module.keepUpTo]
    by_cases hn : kept.length + 1 = n
    · rw [bne_eq_false_iff_eq.2 hn, if_neg (by omega), ← hn, take_length_add_append]
      rfl
    · have hle : n ≤ (kept ++ [i]).length ↔ n ≤ kept.length := by
        rw [length_append, length_singleton]
        omega
      rw [bne_iff_ne.2 hn]
      simp only [ih, hle, append_assoc, singleton_append]

lemma loopWhile_feed_keepAll (s : Pass (List ScannedInstruction)) (es : List ScanEvent) :
    (loopWhile (feed (Module.keepUpTo 0)) s es).1 = ⟨s.consumer ++ es.filterMap instruction?, s.skipped.record es⟩ := by
  induction es generalizing s with
  | nil => rw [filterMap_nil, append_nil]; rfl
  | cons e es ih =>
    cases e with
    | instruction i =>
      refine (ih _).trans (congrArg (Pass.mk · _) ?_)
      exact append_assoc s.consumer [i] _
    | skipped name token => exact ih _

end Consumers

namespace Module

variable (m : Module) (all : Bool) (skipped : SkippedMethods)

lemma passAll_singleton (limit : Nat) : passAll [m] all limit skipped =
    (loopWhile (feed (keepUpTo limit)) { consumer := [], skipped } (m.scan all)).1 := by
  rw [passAll, loopWhile, pass_eq]
  split <;> rename_i h <;> rw [h]
  rfl

lemma passAll_full : passAll [m] all 0 skipped =
    ⟨(m.scan all).filterMap instruction?, skipped.record (m.scan all)⟩ :=
  (m.passAll_singleton all skipped 0).trans (loopWhile_feed_keepAll _ _)

/-- A full pass yields the instructions of the places of a module in their order: of a type the
methods and then the nested types, of a method the body. If all instructions are asked for, the
others stand between them. Any consumer is handed these instructions until it wants no more; whoever
stops has seen the first ones. The methods that are skipped are those with a body and without a
point. A pass after a full one yields what it would have yielded before, and skips no others. -/
theorem pass_yields :
    IsEnumeration InstructionPlace.Before m.reportAt? (passAll [m] false 0 {}).consumer ∧
    (passAll [m] true 0 {}).consumer.filter (·.opcode.isOfInterest) = (passAll [m] false 0 {}).consumer ∧
    ∀ all, (∀ {σ : Type} (take : σ → ScannedInstruction → σ × Bool) (s : Pass σ),
        (m.pass all take s).1.consumer = (loopWhile take s.consumer (passAll [m] all 0 {}).consumer).1) ∧
      (∀ n, 0 < n → (passAll [m] all n {}).consumer = (passAll [m] all 0 {}).consumer.take n) ∧
      (∀ name token, token ∈ (passAll [m] all 0 {}).skipped.ofModule name ↔ name = m.name ∧ m.Skips token) ∧
      ∀ n, passAll [m] all n (passAll [m] all 0 {}).skipped =
        ⟨(passAll [m] all n {}).consumer, (passAll [m] all 0 {}).skipped⟩ := by
  have hordered (all : Bool) : SkippedMethods.AreOrdered (SkippedMethods.record {} (m.scan all)).tokens :=
    SkippedMethods.areOrdered_record ⟨.nil, nofun⟩ _
  have hskipped (all : Bool) {name : String} {token : UInt32} :
      SkippedMethods.Holds (SkippedMethods.record {} (m.scan all)).tokens name token ↔
        .skipped name token ∈ m.scan all := by
    rw [SkippedMethods.holds_record_iff]
    exact or_iff_right fun ⟨_, he, _⟩ => nomatch he
  simp only [passAll_full]
  refine ⟨m.isEnumeration_instructions, m.filter_scan_all, fun all => ⟨fun take s => ?_, fun n hn => ?_,
    fun name token => ?_, fun n => ?_⟩⟩
  · rw [pass_eq, consumer_loopWhile_feed]
  · rw [passAll_singleton, consumer_loopWhile_feed, loopWhile_keepUpTo]
    exact if_neg (Nat.not_le.2 hn)
  · rw [SkippedMethods.mem_ofModule_iff (hordered all), hskipped, skipped_mem_scan_iff]
  · rw [passAll_singleton, passAll_singleton, consumer_loopWhile_feed, ← consumer_loopWhile_feed
      (s := { consumer := [], skipped := SkippedMethods.record {} (m.scan all) })]
    exact congrArg (Pass.mk _) (skipped_loopWhile_feed _ (hordered all) fun _ _ => (hskipped all).2)

end Module

def Module.terraced : Module := link {
  name := "M"
  types := some [
    { name := "A",
      methods := [{ token := 1, name := "F", body := [{ opcode := ⟨"nop"⟩ }, { offset := 1, opcode := ⟨"call"⟩ },
        { offset := 6, opcode := ⟨"box"⟩ }] }],
      nested := [{ name := "B", methods := [{ token := 2, name := "G", body := [{ opcode := ⟨"newobj"⟩ }] }] }] },
    { name := "C",
      methods := [{ token := 3, name := "H", body := [{ opcode := ⟨"call"⟩ }] }] }]
  symbols := some {
    moduleName := "M",
    methods := some [
      (1, some [{ document := "a.cs", line := 7 }, { offset := 1, document := "a.cs", hidden := true },
        { offset := 6, document := "a.cs", line := 9 }]),
      (2, some [{ document := "a.cs", hidden := true }])] } }

/-- A pass that stops after two instructions has not come to the nested type. -/
theorem Module.pass_yields_terraced :
    (terraced.instructions.map fun i => (i.methodId, i.offset, i.location)) =
      [("A::F()", 1, some ⟨"a.cs", 7, 0⟩), ("A::F()", 6, some ⟨"a.cs", 9, 0⟩), ("A/B::G()", 0, none)] ∧
    (terraced.reportAt? (([0, 0], 0), 0)).map ScannedInstruction.methodId = some "A/B::G()" ∧
    (passAll [terraced] false 2 {}).consumer = (passAll [terraced] false 0 {}).consumer.take 2 ∧
    (passAll [terraced] false 0 {}).skipped.ofModule "M" = [3] ∧ terraced.Skips 3 := by
  obtain ⟨-, -, hmode⟩ := pass_yields terraced
  obtain ⟨-, hstop, hskipped, -⟩ := hmode false
  have hthird : (passAll [terraced] false 0 {}).skipped.ofModule "M" = [3] := by decide +kernel
  refine ⟨by decide +kernel, by decide +kernel, hstop 2 (by decide), hthird, ((hskipped "M" 3).1 ?_).2⟩
  rw [hthird]
  exact List.mem_singleton_self 3

end BytecodeAudit
