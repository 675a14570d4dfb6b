import BytecodeAudit.Cache
import BytecodeAudit.Proofs.CallGraph.Chains
import BytecodeAudit.Proofs.Matcher.Search

/-!
# Findings read back

Reading the bytes of findings gives the findings (`Findings.decode?_encode`), and reading those of a
cache entry its hash and data (`CacheEntry.exists_decode?_encode`). Findings must have texts as
strings, and machine integers as lines and columns (`Findings.IsKeepable`).
-/

namespace BytecodeAudit

open List Option

open Pack Text

namespace Pack

variable {β : Type} {toPack : β → Pack} {ys : List β} {item : β → Pack → Option β}

section

variable {tags : Prop} {fs : List (String × Option Pack)}

lemma haveNumbers_iff {xs : List Pack} : HaveNumbers tags xs ↔ ∀ x ∈ xs, x.HasNumbers tags :=
  iff_forall_mem trivial fun _ _ => .rfl

lemma entriesHaveNumbers_iff {es : List (Pack × Pack)} :
    EntriesHaveNumbers tags es ↔ ∀ e ∈ es, e.1.HasNumbers tags ∧ e.2.HasNumbers tags :=
  iff_forall_mem trivial fun _ _ => and_assoc.symm

lemma hasNumbers_record
    (h : ∀ f ∈ fs, ∀ p, f.2 = some p → p.HasNumbers tags) : (record fs).HasNumbers tags := by
  refine entriesHaveNumbers_iff.2 fun e he => ?_
  obtain ⟨⟨k, v⟩, hf, hv⟩ := mem_filterMap.1 he
  obtain ⟨p, rfl, rfl⟩ := map_eq_some_iff.1 hv
  exact ⟨trivial, h _ hf p rfl⟩

mutual

instance decidableHasSizes : ∀ p : Pack, Decidable p.HasSizes
  | .bytes _ | .blob _ | .tagged _ _ => inferInstanceAs (Decidable (_ < _))
  | .array xs => @instDecidableAnd _ _ _ (decidableHaveSizes xs)
  | .map es => @instDecidableAnd _ _ _ (decidableEntriesHaveSizes es)
  | .nil | .bool _ | .int _ _ | .led _ | .foreign => .isTrue trivial

instance decidableHaveSizes : ∀ xs, Decidable (HaveSizes xs)
  | [] => .isTrue trivial
  | x :: xs => @instDecidableAnd _ _ (decidableHasSizes x) (decidableHaveSizes xs)

instance decidableEntriesHaveSizes : ∀ es, Decidable (EntriesHaveSizes es)
  | [] => .isTrue trivial
  | (k, v) :: es => @instDecidableAnd _ _ (decidableHasSizes k)
    (@instDecidableAnd _ _ (decidableHasSizes v) (decidableEntriesHaveSizes es))

end

lemma hasNumbers_array_map (h : ∀ y ∈ ys, (toPack y).HasNumbers tags) : (array (ys.map toPack)).HasNumbers tags := by
  refine haveNumbers_iff.2 fun x hx => ?_
  obtain ⟨y, hy, rfl⟩ := mem_map.1 hx
  exact h y hy

lemma hasNumbers_listed (h : ∀ y ∈ ys, (toPack y).HasNumbers tags) : (listed (ys.map toPack)).HasNumbers tags := by
  unfold listed
  split
  · exact trivial
  · exact hasNumbers_array_map h

lemma hasNumbers_optional {x : Option β} (h : ∀ y, x = some y → (toPack y).HasNumbers tags) :
    (optional toPack x).HasNumbers tags := by
  cases x with
  | none => exact trivial
  | some y => exact h y rfl

end

lemma decodeOption_optional {empty : β} {x : Option β}
    (h : ∀ y, x = some y → item empty (toPack y).asRead = some y) (hnil : ∀ y, (toPack y).asRead ≠ .nil) :
    decodeOption empty item none (optional toPack x).asRead = some x := by
  cases x with
  | none => rfl
  | some y =>
    rw [optional, decodeOption, getD_none, h y rfl, map_some]
    exact hnil y

lemma exists_decodeList_listed {empty : β}
    (h : ∀ y ∈ ys, item empty (toPack y).asRead = some y) :
    ∃ zs, decodeList empty item [] (listed (ys.map toPack)).asRead = some zs ∧ zs.getD [] = ys := by
  cases ys with
  | nil => exact ⟨none, rfl, rfl⟩
  | cons y ys => exact ⟨some (y :: ys), decodeList_map h, rfl⟩

lemma decodeTexts_listed {ss : List String} (h : ∀ s ∈ ss, IsText s) :
    decodeTexts [] (listed (ss.map text)).asRead = some ss := by
  cases ss with
  | nil => rfl
  | cons s ss => exact decodeTexts_map h

end Pack

/-! ### Findings -/

structure Location.IsKeepable (l : Location) : Prop where
  path : IsText l.path
  line : Pack.IsLong l.line
  column : Pack.IsLong l.column

lemma Location.areFieldNames : AreFieldNames ["Path", "Line", "Column"] := ⟨by decide, by decide, by decide⟩

lemma Location.hasNumbers_toPack {l : Location} (h : l.IsKeepable) : l.toPack.HasNumbers False := by
  refine hasNumbers_record ?_
  simp only [forall_mem_cons, some.injEq, forall_eq']
  exact ⟨trivial, isWritableInt_shortest h.line, isWritableInt_shortest h.column, nofun⟩

lemma Location.ofPack_toPack {l : Location} (h : l.IsKeepable) : ofPack ⟨"", 0, 0⟩ l.toPack.asRead = some l := by
  refine (decodeRecord_record areFieldNames rfl _ _ _).trans ?_
  refine (readsAs_text h.path).put ?_
  refine (readsAs_some (decodeLong_int _ h.line)).put ?_
  refine (readsAs_some (decodeLong_int _ h.column)).put ?_
  rfl

/-- Whether a location that may be missing can be kept. -/
def IsKeepableLocation (l : Option Location) : Prop := ∀ x, l = some x → x.IsKeepable

lemma isKeepableLocation_none : IsKeepableLocation none := fun _ h => nomatch h

lemma decodeOption_location {l : Option Location} (h : IsKeepableLocation l) :
    decodeOption ⟨"", 0, 0⟩ Location.ofPack none (optional Location.toPack l).asRead = some l :=
  decodeOption_optional (fun x hx => Location.ofPack_toPack (h x hx)) fun _ => record_asRead_ne_nil _

namespace CallNode

/-- Whether a frame can be kept: it has no callers yet. -/
def IsKeepable : CallNode → Prop
  | .mk name typeName methodName moduleName location children _ =>
    IsText name ∧ IsText typeName ∧ IsText methodName ∧ IsText moduleName ∧ IsKeepableLocation location ∧
      children = []
  | .gap => False

lemma areFieldNames : AreFieldNames packFields := ⟨by decide, by decide, by decide⟩

lemma hasNumbers_toPack {n : CallNode} (h : n.IsKeepable) : n.toPack.HasNumbers False := by
  cases n with
  | gap => exact h.elim
  | mk name typeName methodName moduleName location children truncated =>
    obtain ⟨-, -, -, -, hlocation, rfl⟩ := h
    rw [toPack]
    refine hasNumbers_record ?_
    simp only [forall_mem_cons, some.injEq, forall_eq']
    exact ⟨trivial, trivial, trivial, trivial,
      hasNumbers_optional fun l hl => Location.hasNumbers_toPack (hlocation l hl), trivial, trivial,
      nofun⟩

lemma toPack_asRead_ne_nil {n : CallNode} (h : n.IsKeepable) : n.toPack.asRead ≠ .nil := by
  cases n with
  | gap => exact h.elim
  | mk => exact record_asRead_ne_nil _

lemma ofPack_toPack {n : CallNode} (h : n.IsKeepable) :
    ofPack n.toPack.asRead.depth (named "") n.toPack.asRead = some n := by
  cases n with
  | gap => exact h.elim
  | mk name typeName methodName moduleName location children truncated =>
    obtain ⟨hname, htype, hmethod, hmodule, hlocation, rfl⟩ := h
    rw [toPack]
    obtain ⟨fuel, hfuel, -⟩ := exists_fuel_of_record (Nat.le_refl _)
    have hchildren : ReadsAs (decodeList (named "") (ofPack fuel) []) none
        (some (listed (childrenToPack []))) none := readsAs_some rfl
    rw [hfuel, ofPack]
    refine (decodeRecord_record areFieldNames rfl _ _ _).trans ?_
    refine (readsAs_text hname).put ?_
    refine (readsAs_text htype).put ?_
    refine (readsAs_text hmethod).put ?_
    refine (readsAs_text hmodule).put ?_
    refine (readsAs_some (decodeOption_location hlocation)).put ?_
    refine hchildren.put ?_
    refine (readsAs_bool truncated).put ?_
    rfl

end CallNode

namespace Issue

structure IsKeepable (i : Issue) : Prop where
  category : IsText i.category.name
  severity : IsText i.severity.label
  description : IsText i.description
  descriptorId : IsText i.descriptorId
  dependencies : ∀ n, i.dependencies = some n → n.IsKeepable
  location : IsKeepableLocation i.location
  properties : ∀ s ∈ i.properties, IsText s

lemma areFieldNames : AreFieldNames packFields := ⟨by decide, by decide, by decide⟩

lemma hasNumbers_toPack {i : Issue} (h : i.IsKeepable) : i.toPack.HasNumbers False := by
  refine hasNumbers_record ?_
  simp only [forall_mem_cons, some.injEq, forall_eq']
  exact ⟨trivial, trivial, trivial, trivial,
    hasNumbers_optional fun n hn => CallNode.hasNumbers_toPack (h.dependencies n hn),
    hasNumbers_optional fun l hl => Location.hasNumbers_toPack (h.location l hl),
    hasNumbers_listed fun _ _ => trivial, trivial, nofun⟩

lemma ofPack_toPack {i : Issue} (h : i.IsKeepable) :
    ofPack { category := ⟨""⟩, description := "" } i.toPack.asRead = some i := by
  have hdependencies : ReadsAs (fun v => decodeOption (CallNode.named "") (CallNode.ofPack v.depth) none v) none
      (some (optional CallNode.toPack i.dependencies)) i.dependencies := by
    refine readsAs_some ?_
    rcases hn : i.dependencies with _ | n
    · rfl
    · have hkeep := h.dependencies n hn
      rw [Pack.optional, decodeOption, getD_none, CallNode.ofPack_toPack hkeep, map_some]
      exact CallNode.toPack_asRead_ne_nil hkeep
  have hseverity : ReadsAs decodeText Severity.default.label (some (text i.severity.label)) i.severity.label :=
    readsAs_some (decodeText_text h.severity)
  refine (decodeRecord_record areFieldNames rfl _ _ _).trans ?_
  refine (readsAs_text h.category).put ?_
  refine hseverity.put ?_
  refine (readsAs_text h.description).put ?_
  refine (readsAs_text h.descriptorId).put ?_
  refine hdependencies.put ?_
  refine (readsAs_some (decodeOption_location h.location)).put ?_
  refine (readsAs_some (decodeTexts_listed h.properties)).put ?_
  refine (readsAs_bool i.fixed).put ?_
  rfl

end Issue

namespace CallEdge

structure IsKeepable (e : CallEdge) : Prop where
  caller : IsText e.caller
  callee : IsText e.callee
  callerType : IsText e.callerType
  callerMethod : IsText e.callerMethod
  moduleName : IsText e.moduleName
  location : IsKeepableLocation e.location

lemma areFieldNames : AreFieldNames fieldNames := ⟨by decide, by decide, by decide⟩

lemma hasNumbers_toPack {e : CallEdge} (h : e.IsKeepable) : e.toPack.HasNumbers False := by
  have htext? : ∀ s p, text? s = some p → p.HasNumbers False := fun s p hp => by
    obtain ⟨-, hp⟩ := ite_none_left_eq_some.1 hp
    exact some.inj hp ▸ trivial
  refine hasNumbers_record ?_
  simp only [forall_mem_cons, some.injEq, forall_eq']
  refine ⟨trivial, trivial, htext? _, htext? _, htext? _, fun p hp => ?_, nofun⟩
  obtain ⟨l, hl, rfl⟩ := map_eq_some_iff.1 hp
  exact Location.hasNumbers_toPack (h.location l hl)

lemma ofPack_toPack {e : CallEdge} (h : e.IsKeepable) :
    ofPack { caller := "", callee := "" } e.toPack.asRead = some e := by
  have hlocation : ReadsAs (decodeOption ⟨"", 0, 0⟩ Location.ofPack none) none
      (e.location.map Location.toPack) e.location :=
    readsAs_option (fun l hl => Location.ofPack_toPack (h.location l hl)) fun _ => record_asRead_ne_nil _
  refine (decodeRecord_record areFieldNames rfl _ _ _).trans ?_
  refine (readsAs_text h.caller).put ?_
  refine (readsAs_text h.callee).put ?_
  refine (readsAs_text? h.callerType).put ?_
  refine (readsAs_text? h.callerMethod).put ?_
  refine (readsAs_text? h.moduleName).put ?_
  refine hlocation.put ?_
  rfl

end CallEdge

namespace Findings

variable {f : Findings}

structure IsKeepable (f : Findings) : Prop where
  issues : ∀ i ∈ f.issues, i.IsKeepable
  edges : ∀ e ∈ f.edges, e.IsKeepable

lemma areFieldNames : AreFieldNames ["issues", "edges"] := ⟨by decide, by decide, by decide⟩

variable (h : f.IsKeepable)
include h

lemma hasNumbers_toPack : f.toPack.HasNumbers False := by
  refine hasNumbers_record ?_
  simp only [forall_mem_cons, some.injEq, forall_eq']
  exact ⟨hasNumbers_listed fun i hi => Issue.hasNumbers_toPack (h.issues i hi),
    hasNumbers_array_map fun e he => CallEdge.hasNumbers_toPack (h.edges e he), nofun⟩

lemma ofPack_toPack : ofPack f.toPack.asRead = some f := by
  obtain ⟨issues, hread, hissues⟩ := exists_decodeList_listed fun i hi => Issue.ofPack_toPack (h.issues i hi)
  have hedges : ReadsAs (decodeList { caller := "", callee := "" } CallEdge.ofPack []) (some [])
      (some (.array (f.edges.map CallEdge.toPack))) (some f.edges) :=
    readsAs_some (decodeList_map fun e he => CallEdge.ofPack_toPack (h.edges e he))
  have hlisted : ReadsAs (decodeList { category := ⟨""⟩, description := "" } Issue.ofPack []) none
      (some (listed (f.issues.map Issue.toPack))) issues := readsAs_some hread
  refine (decodeRecord_record areFieldNames rfl _ _ _).trans ?_
  refine hlisted.put ?_
  refine hedges.put ?_
  rw [hissues]
  rfl

lemma decode?_encode (hsizes : f.toPack.HasSizes) : decode? f.encode = some f := by
  have hwritable := isWritable_of_hasSizes f.toPack (hasNumbers_toPack h) hsizes
  rw [decode?, encode, read?_write_self hwritable]
  exact ofPack_toPack h

lemma eq_of_decode?_prefix {g : Findings} (hsizes : f.toPack.HasSizes) {bs : List UInt8}
    (hbs : bs <+: f.encode) (hg : decode? bs = some g) : g = f := by
  obtain ⟨more, hmore⟩ := hbs
  obtain ⟨⟨p, rest⟩, hread, hp⟩ := bind_eq_some_iff.1 hg
  have hwhole : decode? (bs ++ more) = some g := bind_eq_some_iff.2 ⟨_, read?_append hread, hp⟩
  rw [hmore, decode?_encode h hsizes] at hwhole
  exact (some.inj hwhole).symm

end Findings

namespace Instant

/-- Whether a machine word holds the seconds of an instant. -/
def IsPackable (t : Instant) : Prop := IsLong (Int.fdiv t.nanos nanosPerSecond)

instance (t : Instant) : Decidable t.IsPackable := inferInstanceAs (Decidable (IsLong _))

lemma nanos_eq (t : Instant) : t.nanos =
    Int.fdiv t.nanos nanosPerSecond * nanosPerSecond + (Int.fmod t.nanos nanosPerSecond).toNat := by
  have hmod := Int.mul_fdiv_add_fmod t.nanos nanosPerSecond
  have hnonneg := Int.fmod_nonneg_of_pos t.nanos (b := nanosPerSecond) (by decide)
  rw [Int.toNat_of_nonneg hnonneg, Int.mul_comm]
  exact hmod.symm

lemma toNat_fmod_lt (t : Instant) : (Int.fmod t.nanos nanosPerSecond).toNat < 1000000000 := by
  have hlt := Int.fmod_lt_of_pos t.nanos (b := nanosPerSecond) (by decide)
  rw [nanosPerSecond] at hlt ⊢
  omega

lemma ofPack_toPack {t : Instant} (h : t.IsPackable) : ofPack t.toPack.asRead = some ⟨t.nanos, 0⟩ := by
  have hnanos := t.nanos_eq
  have hrest := t.toNat_fmod_lt
  rw [IsPackable, IsLong] at h
  show ofPack t.toPack = _
  rw [toPack]
  generalize Int.fdiv t.nanos nanosPerSecond = s at *
  generalize (Int.fmod t.nanos nanosPerSecond).toNat = n at *
  have hspan : Word.span 34 = 17179869184 := rfl
  have hspan' : Word.span 32 = 4294967296 := rfl
  have hsame {seconds : Int} {nanos : Nat} (hs : seconds = s) (hn : nanos = n) :
      some (Instant.mk (seconds * nanosPerSecond + nanos) 0) = some ⟨t.nanos, 0⟩ := by rw [hs, hn, hnanos]
  rw [hspan, hspan']
  split
  · -- the seconds are not negative, so they are their own complement
    rename_i hsmall
    have hseconds : (complement 64 s : Int) = s := by
      simp only [complement, Word.unsigned, Word.span, Nat.pow_eq, Nat.reducePow] at hsmall ⊢
      omega
    generalize complement 64 s = m at hsmall hseconds
    have hword : (n * 17179869184 + m) % 256 ^ 8 = n * 17179869184 + m := Nat.mod_eq_of_lt (by omega)
    split
    · have hword : (n * 17179869184 + m) % 256 ^ 4 = m := by
        rw [Nat.mod_eq_of_lt (by omega)]
        omega
      simp only [ofPack, length_bigEndian, ofBigEndian_bigEndian, bne_self_eq_false, hword]
      exact hsame hseconds (by omega)
    · simp only [ofPack, length_bigEndian, ofBigEndian_bigEndian, bne_self_eq_false, hspan, hword]
      exact hsame (by omega) (by omega)
  · have hseconds : ofComplement 64 (complement 64 s % 256 ^ 8) = s := by
      rw [Nat.mod_eq_of_lt (b := 256 ^ 8) (complement_lt 64 s)]
      exact @ofComplement_complement 63 s h.1 h.2
    have htake : (bigEndian 4 n ++ bigEndian 8 (complement 64 s)).take 4 = bigEndian 4 n :=
      take_left' (length_bigEndian 4 n)
    have hdrop : (bigEndian 4 n ++ bigEndian 8 (complement 64 s)).drop 4 = bigEndian 8 (complement 64 s) :=
      drop_left' (length_bigEndian 4 n)
    simp only [ofPack, length_append, length_bigEndian, htake, hdrop, ofBigEndian_bigEndian, hseconds,
      bne_self_eq_false]
    exact hsame rfl (Nat.mod_eq_of_lt (by omega))

end Instant

namespace CacheEntry

variable {e : CacheEntry}

lemma areFieldNames : AreFieldNames packFields := ⟨by decide, by decide, by decide⟩

lemma exists_ofPack_toPack (t : Instant) : ∃ t', Instant.ofPack t.toPack.asRead = some t' := by
  have hread : ∀ bs : List UInt8, bs.length = 4 ∨ bs.length = 8 ∨ bs.length = 12 →
      ∃ t', Instant.ofPack (.tagged Instant.packTag bs) = some t' := by
    rintro bs (h | h | h) <;> simp [Instant.ofPack, h]
  refine hread _ ?_
  split
  · rw [length_bigEndian]
    split
    · exact .inl rfl
    · exact .inr (.inl rfl)
  · rw [length_append, length_bigEndian, length_bigEndian]
    exact .inr (.inr rfl)

lemma isWritable_instant (t : Instant) : t.toPack.IsWritable True := by
  refine ⟨trivial, ?_⟩
  split
  · rw [length_bigEndian]
    split <;> decide
  · rw [length_append, length_bigEndian, length_bigEndian]
    decide

lemma ofPack_toPack (e : CacheEntry) (hhash : IsText e.hash) {t : Instant}
    (ht : Instant.ofPack e.time.toPack.asRead = some t) : ofPack e.toPack.asRead = some { e with time := t } := by
  have htime : ReadsAs Instant.ofPack Instant.unset (some e.time.toPack) t := readsAs_some ht
  have hdata : ReadsAs decodeBytes [] (some (.blob e.data)) e.data := readsAs_some rfl
  refine (decodeRecord_record areFieldNames rfl _ _ _).trans ?_
  refine (readsAs_text hhash).put ?_
  refine htime.put ?_
  refine hdata.put ?_
  rfl

lemma exists_head?_blobHeader (size : Nat) (rest : List UInt8) :
    ∃ n ≤ size, Pack.head? (blobHeader size ++ rest) = some (.bytes n, rest) := by
  by_cases hsize : size < 0x100000000
  · exact ⟨size, Nat.le_refl size, head?_blobHeader hsize rest⟩
  · refine ⟨size % 256 ^ 4, Nat.mod_le .., ?_⟩
    rw [blobHeader, if_neg (by omega), if_neg (by omega)]
    exact sized?_append 4 size .bytes rest

lemma readValue_blob (path : FieldPath) (fuel : Nat) (bs rest : List UInt8) :
    ∃ front back, readValue path (fuel + 1) ((Pack.blob bs).write ++ rest) = some (.bytes front, back ++ rest) ∧
      front ++ back = bs := by
  obtain ⟨n, hn, hhead⟩ := exists_head?_blobHeader bs.length (bs ++ rest)
  refine ⟨bs.take n, bs.drop n, ?_, take_append_drop n bs⟩
  rw [readValue, write, append_assoc, hhead]
  dsimp only
  rw [splitBytes?, take_append_of_le_length hn, drop_append_of_le_length hn, if_pos (length_take_of_le hn)]
  rfl

/-- The packed form of an entry is read back, but for the end of data whose length does not fit its
header. -/
lemma exists_read?_encode (hhash : IsShortText e.hash) :
    ∃ front back, read? e.encode = some ({ e with data := front }.toPack.asRead, back) ∧ front ++ back = e.data := by
  have hname : ∀ s ∈ packFields, (text s).IsWritable True := fun s hs =>
    (areFieldNames.isFieldName s hs).isShortText.length_lt
  have hvalue : (text e.hash).IsWritable True := hhash.length_lt
  have hbytes : e.encode = mapHeader 3 ++ ((text "hash").write ++ ((text e.hash).write ++
      ((text "timestamp").write ++ (e.time.toPack.write ++ ((text "data").write ++
        ((Pack.blob e.data).write ++ [])))))) := by
    simp [encode, toPack, record, write, writeEntries]
  rw [read?]
  generalize hfuel : 3 * e.encode.length + 3 = fuel
  rw [hbytes] at hfuel ⊢
  have hpos := length_write_pos (text "data")
  simp only [length_append] at hfuel
  obtain ⟨fuel, rfl⟩ : ∃ n, fuel = n + 6 := ⟨fuel - 6, by omega⟩
  -- the data comes last, so a length that its header cannot tell spoils nothing before it
  obtain ⟨front, back, hblob, hdata⟩ := readValue_blob [] fuel e.data []
  have hkey : readValue [] (fuel + 2) ((text "data").write ++ ((Pack.blob e.data).write ++ [])) =
      some (text "data", (Pack.blob e.data).write ++ []) :=
    readValue_write (fun _ => rfl) (text "data") (hname "data" (by decide)) (by omega) _
  have hlast : readEntries [] (fuel + 3) 1 ((text "data").write ++ ((Pack.blob e.data).write ++ [])) =
      some ([(text "data", .bytes front)], back) := by
    have hfield : readField (isEntryOn [] (text "data")) [] (fuel + 2) ((Pack.blob e.data).write ++ []) =
        some (.bytes front, back ++ []) := by
      rw [readField.eq_def]
      exact hblob
    rw [readEntries_succ, hkey]
    dsimp only [bind_some, tail_nil]
    rw [hfield, append_nil]
    dsimp only [bind_some]
    rw [readEntries_zero]
    rfl
  refine ⟨front, back, ?_, hdata⟩
  rw [readValue, head?_mapHeader (by decide)]
  dsimp only
  rw [readEntries_write (hname "hash" (by decide)) hvalue (by omega),
    readEntries_write (hname "timestamp" (by decide)) (isWritable_instant e.time) (by omega), hlast]
  rfl

lemma exists_decode?_encode (hhash : IsShortText e.hash) :
    ∃ e', decode? e.encode = some e' ∧ e'.hash = e.hash ∧ e'.data <+: e.data := by
  obtain ⟨front, back, hread, hdata⟩ := exists_read?_encode hhash
  obtain ⟨t, ht⟩ := exists_ofPack_toPack e.time
  refine ⟨{ e with time := t, data := front }, ?_, rfl, back, hdata⟩
  rw [decode?, hread]
  exact ofPack_toPack { e with data := front } hhash.isText ht

lemma decode?_encode (hhash : IsShortText e.hash) (hdata : e.data.length < 0x100000000) (htime : e.time.IsPackable) :
    decode? e.encode = some { e with time := ⟨e.time.nanos, 0⟩ } := by
  have hwritable : e.toPack.IsWritable True := by
    refine isWritable_record areFieldNames rfl ?_
    simp only [forall_mem_cons, some.injEq, forall_eq']
    exact ⟨hhash.length_lt, isWritable_instant e.time, hdata, nofun⟩
  rw [decode?, encode, read?_write_self hwritable]
  exact ofPack_toPack e hhash.isText (Instant.ofPack_toPack htime)

end CacheEntry

/-! ### What a scan finds can be kept

Names are put together from those of a module and places come from the symbols, so the findings of a
module that was read from bytes are keepable (`Findings.isKeepable_ofInstructions`). -/

/-! ### Instructions with their surroundings -/

/-- Whether the names and the place of an instruction can be written down. -/
structure ScannedInstruction.HasTexts (i : ScannedInstruction) : Prop where
  moduleName : IsText i.moduleName
  caller : i.caller.HasTexts
  callee : ∀ m, i.callee = some m → m.HasTexts
  location : IsKeepableLocation i.location

namespace Module

variable {m : Module}

lemma hasTexts_of_mem_walkType {t : TypeDef} (h : t.HasTexts) : ∀ u ∈ walkType t, u.HasTexts := by
  induction h with
  | @mk t ref methods nested ih =>
    have hwalk : walkType t = t :: t.nested.flatMap walkType := by
      rw [← walkTypes_eq_flatMap]
      cases t
      rfl
    rw [hwalk, forall_mem_cons]
    refine ⟨.mk ref methods nested, fun u hu => ?_⟩
    obtain ⟨n, hn, hu⟩ := mem_flatMap.1 hu
    exact ih n hn u hu

lemma HasTexts.of_mem_methods (h : m.HasTexts) {owner : TypeRef} {method : MethodDef}
    (hmem : (owner, method) ∈ m.methods) : owner.HasTexts ∧ method.HasTexts := by
  obtain ⟨u, hu, hmethod⟩ := mem_flatMap.1 hmem
  obtain ⟨method', hmethod', heq⟩ := mem_map.1 hmethod
  cases heq
  rw [walk, walkTypes_eq_flatMap] at hu
  obtain ⟨t, ht, hu⟩ := mem_flatMap.1 hu
  obtain ⟨ref, methods, -⟩ := hasTexts_of_mem_walkType (h.types t ht) u hu
  exact ⟨ref, methods _ hmethod'⟩

lemma HasTexts.of_pointAt? (h : m.HasTexts) {token offset : UInt32} {p : SequencePoint}
    (hp : m.pointAt? token offset = some p) : p.HasTexts := by
  obtain ⟨s, hs, hp⟩ := bind_eq_some_iff.1 hp
  have hmem : p ∈ s.points token := by
    unfold Symbols.pointAt? at hp
    dsimp only at hp
    split at hp
    · rename_i q hq
      obtain ⟨-, hp⟩ := ite_none_right_eq_some.1 hp
      rw [← Option.some.inj hp, ← List.mem_toArray]
      exact Array.mem_of_getElem? hq
    · cases hp
  unfold Symbols.points at hmem
  rcases he : s.entries.find? (·.1 == token) with _ | e
  · rw [he] at hmem
    cases hmem
  · rw [he, bind_some] at hmem
    exact h.symbols s hs e (List.mem_of_find?_eq_some he) p hmem

lemma HasTexts.of_mem_scanBody (h : m.HasTexts) {token : UInt32} {caller : MethodRef} (hcaller : caller.HasTexts)
    {near : Option Location} (hnear : IsKeepableLocation near) {body : List Instruction}
    (hbody : ∀ i ∈ body, i.HasTexts) {all : Bool} {i : ScannedInstruction}
    (hi : .instruction i ∈ m.scanBody all token caller near body) : i.HasTexts := by
  induction body generalizing near with
  | nil => cases hi
  | cons x xs ih =>
    obtain ⟨hx, hxs⟩ := forall_mem_cons.1 hbody
    -- the rest is scanned from the position of the instruction, or else from the one before
    obtain ⟨next, hnext, hi⟩ : ∃ next, IsKeepableLocation next ∧ .instruction i ∈
        if all || x.opcode.isOfInterest then
          .instruction
            { opcode := x.opcode, offset := x.offset, moduleName := m.name, caller, callee := x.method,
              operand := x.typeRef, location := next } :: m.scanBody all token caller next xs
        else m.scanBody all token caller next xs := by
      rcases hp : m.pointAt? token x.offset with _ | p
      · simp only [scanBody, hp] at hi
        exact ⟨near, hnear, hi⟩
      · simp only [scanBody, hp] at hi
        have hpoint := h.of_pointAt? hp
        refine ⟨some (pointLocation p), ?_, hi⟩
        rintro l ⟨⟩
        exact ⟨hpoint.document, hpoint.line, hpoint.column⟩
    split at hi
    · rcases mem_cons.1 hi with hi | hi
      · cases hi
        exact ⟨h.name, hcaller, hx.method, hnext⟩
      · exact ih hnext hxs hi
    · exact ih hnext hxs hi

lemma HasTexts.of_mem_instructions (h : m.HasTexts) {i : ScannedInstruction} (hi : i ∈ m.instructions) :
    i.HasTexts := by
  obtain ⟨e, he, hei⟩ := mem_filterMap.1 hi
  obtain ⟨⟨owner, method⟩, hmethod, he⟩ := mem_flatMap.1 he
  obtain ⟨⟨ns, name, declaring⟩, hmethod⟩ := h.of_mem_methods hmethod
  cases e with
  | skipped => cases hei
  | instruction j =>
    obtain rfl := Option.some.inj hei
    have he : .instruction j ∈ m.scanMethod false owner method := he
    have howner : TypeRef.HasTexts { owner with moduleName := m.name } := .mk ns name declaring
    have hcaller : (method.ref { owner with moduleName := m.name }).HasTexts := ⟨howner, hmethod.name, hmethod.params⟩
    unfold scanMethod at he
    split at he
    · cases he
    split at he
    · cases mem_singleton.1 he
    · exact h.of_mem_scanBody hcaller isKeepableLocation_none hmethod.body he

end Module

/-! ### Issues and calls -/

lemma ScannedInstruction.HasTexts.callNode {i : ScannedInstruction} (h : i.HasTexts) : i.callNode.IsKeepable :=
  ⟨h.caller.fullName, h.caller.declaring.fullName, h.caller.name, h.moduleName, h.location, rfl⟩

lemma ScannedInstruction.HasTexts.edge? {i : ScannedInstruction} (h : i.HasTexts) {e : CallEdge} (he : i.edge? = some e) :
    e.IsKeepable := by
  unfold ScannedInstruction.edge? at he
  split at he
  · rename_i callee hcallee
    obtain ⟨-, he⟩ := ite_none_right_eq_some.1 he
    cases he
    exact {
      caller := h.caller.fullName
      callee := (h.callee callee hcallee).fullName
      callerType := h.caller.declaring.fullName
      callerMethod := h.caller.name
      moduleName := h.moduleName
      location := h.location }
  · cases he

namespace Matcher

/-- Whether the category and the ids of the descriptors of a matcher are texts. -/
structure HasTexts (m : Matcher) : Prop where
  category : IsText m.category.name
  alike : Alike (fun d d' => d = d' ∧ IsText d.id) m m

variable {m : Matcher} {i : ScannedInstruction}

lemma isKeepable_issueAt (hm : IsText m.category.name) (hi : i.HasTexts) {d : Descriptor} (hd : IsText d.id)
    {description : String} (hdescription : IsText description) : (m.issueAt i d description).IsKeepable where
  category := hm
  severity := IsAscii.isText (s := Severity.default.label) (by decide)
  description := hdescription
  descriptorId := hd
  dependencies n hn := some.inj hn ▸ hi.callNode
  location := hi.location
  properties s hs := mem_singleton.1 hs ▸ hi.moduleName

lemma HasTexts.match? (h : m.HasTexts) (hi : i.HasTexts) {matched : MatchedIssue}
    (hmatch : m.match? i = some matched) : matched.issue.IsKeepable := by
  obtain ⟨d, hd, ⟨used, rfl⟩ | ⟨callee, hcallee, rfl⟩⟩ := h.alike.match?_cases hmatch
  · exact isKeepable_issueAt h.category hi hd (isText_ofBytes _)
  · exact isKeepable_issueAt h.category hi hd (hi.callee callee hcallee).prettyName

lemma hasTexts_ofCatalog {c : Catalog} (hc : ∀ d ∈ c.list, IsText d.id) (platform : Platform) (version : String) :
    (ofCatalog c platform version).HasTexts := by
  refine ⟨?_, alike_ofCatalog_self fun d hd => hc d (mem_of_mem_filter hd)⟩
  rw [category_ofCatalog]
  exact IsAscii.isText (by decide)

end Matcher

lemma Findings.isKeepable_ofInstructions {m : Matcher} (hm : m.HasTexts) {is : List ScannedInstruction}
    (his : ∀ i ∈ is, i.HasTexts) : (ofInstructions m is).1.IsKeepable where
  issues issue hissue := by
    obtain ⟨matched, hmatched, rfl⟩ := mem_map.1 hissue
    obtain ⟨i, hi, hmatch⟩ := mem_filterMap.1 hmatched
    exact hm.match? (his i hi) hmatch
  edges e he := by
    have he : e ∈ (CallGraph.ofList (is.filterMap ScannedInstruction.edge?)).edges.toList := he
    rw [CallGraph.edges_ofList] at he
    obtain ⟨i, hi, hedge⟩ := mem_filterMap.1 (CallGraph.mem_of_mem_eraseDupsBy he)
    exact (his i hi).edge? hedge

end BytecodeAudit
