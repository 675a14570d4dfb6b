import Mathlib.Tactic.Ring
import BytecodeAudit.Pack.Basic

/-!
# Reading what was written

Reading the written form of a packed value gives the value back, whatever bytes follow it, up to
what writing does not tell: the width of a number and whether bytes are text (`asRead`). The headers
must have room for its sizes and numbers (`IsWritable`, `isWritable_of_hasSizes`).
-/

namespace BytecodeAudit.Pack

open List Option

/-! ### Reading looks at the front only

Bytes that are appended are left over (`read?_append`). Hence bytes that were cut off are read as
nothing, or as what they were cut from. -/

variable {path : FieldPath} {v : Pack}

variable {bs rest more : List UInt8}

lemma splitBytes?_append_right {n : Nat} {front : List UInt8} (h : splitBytes? n bs = some (front, rest)) :
    splitBytes? n (bs ++ more) = some (front, rest ++ more) := by
  obtain ⟨hlen, heq⟩ := ite_none_right_eq_some.1 h
  obtain ⟨rfl, rfl⟩ := Prod.mk.inj (some.inj heq)
  have hle : n ≤ bs.length := by
    rw [length_take] at hlen
    omega
  rw [splitBytes?, take_append_of_le_length hle, drop_append_of_le_length hle]
  exact if_pos hlen

lemma sized?_append_right {width : Nat} {f : Nat → Head} {h : Head} (hread : sized? width f bs = some (h, rest)) :
    sized? width f (bs ++ more) = some (h, rest ++ more) := by
  simp only [sized?, number?, Option.map_map, map_eq_some_iff] at hread ⊢
  obtain ⟨⟨front, rest'⟩, hsplit, heq⟩ := hread
  obtain ⟨rfl, rfl⟩ := Prod.mk.inj heq
  exact ⟨_, splitBytes?_append_right hsplit, rfl⟩

lemma some_append {α : Type} {x y : α} (h : some (x, bs) = some (y, rest)) :
    some (x, bs ++ more) = some (y, rest ++ more) := by
  obtain ⟨rfl, rfl⟩ := Prod.mk.inj (some.inj h)
  rfl

lemma map_append {α β : Type} {x y : Option (α × List UInt8)} (f : α → β) {b : β}
    (h : (x.map fun r => (f r.1, r.2)) = some (b, rest))
    (hxy : ∀ a rest, x = some (a, rest) → y = some (a, rest ++ more)) :
    (y.map fun r => (f r.1, r.2)) = some (b, rest ++ more) := by
  obtain ⟨⟨a, rest'⟩, hx, heq⟩ := map_eq_some_iff.1 h
  rw [hxy a rest' hx]
  exact some_append (congrArg some heq)

lemma head?_append {h : Head} (hread : head? bs = some (h, rest)) : head? (bs ++ more) = some (h, rest ++ more) := by
  cases bs with
  | nil => cases hread
  | cons b bs =>
    simp only [cons_append, head?] at hread ⊢
    generalize b.toNat = c at hread ⊢
    split_ifs at hread ⊢
    iterate 5 exact some_append hread
    split at hread
    all_goals first
      | exact sized?_append_right hread
      | exact some_append hread
      | cases hread

def isItemOn (path : FieldPath) (index : Nat) : Bool := path.head?.any (·.2 == index)

def isEntryOn (path : FieldPath) (k : Pack) : Bool := path.head?.any (k.isText ·.1)

lemma readItems_zero (path : FieldPath) (index fuel : Nat) (bs : List UInt8) :
    readItems path index fuel 0 bs = some ([], bs) := by
  cases fuel <;> rfl

lemma readEntries_zero (path : FieldPath) (fuel : Nat) (bs : List UInt8) :
    readEntries path fuel 0 bs = some ([], bs) := by
  cases fuel <;> rfl

lemma readItems_succ (path : FieldPath) (index fuel n : Nat) (bs : List UInt8) :
    readItems path index (fuel + 1) (n + 1) bs =
      (readField (isItemOn path index) path.tail fuel bs).bind fun (x, rest) =>
        (readItems path (index + 1) fuel n rest).bind fun (xs, rest) => some (x :: xs, rest) := by
  cases path <;> rfl

lemma readEntries_succ (path : FieldPath) (fuel n : Nat) (bs : List UInt8) : readEntries path (fuel + 1) (n + 1) bs =
      (readValue [] fuel bs).bind fun (k, rest) =>
        (readField (isEntryOn path k) path.tail fuel rest).bind fun (v, rest) =>
          (readEntries path fuel n rest).bind fun (es, rest) => some ((k, v) :: es, rest) := by
  cases path <;> rfl

lemma exists_head?_of_readValue {fuel : Nat} (h : readValue path fuel bs = some (v, rest)) :
    ∃ hd rest', head? bs = some (hd, rest') ∧ ∀ n, hd = .tagged n → rest' ≠ [] := by
  obtain _ | fuel := fuel
  · cases h
  rw [readValue] at h
  rcases hhead : head? bs with _ | ⟨hd, rest'⟩
  · rw [hhead] at h
    cases h
  · refine ⟨hd, rest', rfl, ?_⟩
    rintro n rfl rfl
    rw [hhead] at h
    cases h

/-- Whether what is read with some fuel does not depend on what follows, and more fuel does no
harm. -/
structure IsLocal (fuel : Nat) : Prop where
  value : ∀ {path bs v rest fuel'} (more : List UInt8), readValue path fuel bs = some (v, rest) → fuel ≤ fuel' →
    readValue path fuel' (bs ++ more) = some (v, rest ++ more)
  items : ∀ {path index n bs xs rest fuel'} (more : List UInt8), readItems path index fuel n bs = some (xs, rest) →
    fuel ≤ fuel' → readItems path index fuel' n (bs ++ more) = some (xs, rest ++ more)
  entries : ∀ {path n bs es rest fuel'} (more : List UInt8), readEntries path fuel n bs = some (es, rest) →
    fuel ≤ fuel' → readEntries path fuel' n (bs ++ more) = some (es, rest ++ more)
  field : ∀ {isOnPath path bs v rest fuel'} (more : List UInt8), readField isOnPath path fuel bs = some (v, rest) →
    fuel ≤ fuel' → readField isOnPath path fuel' (bs ++ more) = some (v, rest ++ more)

lemma isLocal_zero : IsLocal 0 where
  value _ h _ := by cases h
  items {_ _ n _ _ _ _} _ h _ := by
    cases n with
    | zero =>
      rw [readItems_zero] at h ⊢
      exact some_append h
    | succ n => cases h
  entries {_ n _ _ _ _} _ h _ := by
    cases n with
    | zero =>
      rw [readEntries_zero] at h ⊢
      exact some_append h
    | succ n => cases h
  field _ h _ := by
    rw [readField] at h
    cases h

section Step

variable {fuel fuel' : Nat} (hlocal : IsLocal fuel) (hfuel : fuel ≤ fuel')

include hlocal hfuel

lemma IsLocal.readValue_succ (h : readValue path (fuel + 1) bs = some (v, rest)) :
    readValue path (fuel' + 1) (bs ++ more) = some (v, rest ++ more) := by
  rw [readValue] at h ⊢
  split at h
  · cases h
  · rename_i hhead
    rw [head?_append hhead]
    exact some_append h
  · rename_i hhead
    rw [head?_append hhead]
    exact map_append Pack.bytes h fun _ _ => splitBytes?_append_right
  · rename_i tag _ hhead
    rw [head?_append hhead]
    exact map_append (Pack.tagged tag) h fun _ _ => splitBytes?_append_right
  · cases h
  · rename_i hhead
    rw [head?_append hhead]
    exact map_append (fun _ => Pack.foreign) h fun _ _ => splitBytes?_append_right
  · rename_i hhead
    rw [head?_append hhead]
    exact map_append Pack.array h fun _ _ hitems => hlocal.items more hitems hfuel
  · rename_i hhead
    rw [head?_append hhead]
    exact map_append Pack.map h fun _ _ hentries => hlocal.entries more hentries hfuel

lemma IsLocal.readItems_succ {index n : Nat} {xs : List Pack}
    (h : readItems path index (fuel + 1) n bs = some (xs, rest)) :
    readItems path index (fuel' + 1) n (bs ++ more) = some (xs, rest ++ more) := by
  obtain _ | n := n
  · rw [readItems_zero] at h ⊢
    exact some_append h
  rw [Pack.readItems_succ, bind_eq_some_iff] at h ⊢
  obtain ⟨⟨x, rest₁⟩, hx, h⟩ := h
  obtain ⟨⟨xs', rest₂⟩, hxs, heq⟩ := bind_eq_some_iff.1 h
  exact ⟨_, hlocal.field more hx hfuel, bind_eq_some_iff.2 ⟨_, hlocal.items more hxs hfuel, some_append heq⟩⟩

lemma IsLocal.readEntries_succ {n : Nat} {es : List (Pack × Pack)}
    (h : readEntries path (fuel + 1) n bs = some (es, rest)) :
    readEntries path (fuel' + 1) n (bs ++ more) = some (es, rest ++ more) := by
  obtain _ | n := n
  · rw [readEntries_zero] at h ⊢
    exact some_append h
  rw [Pack.readEntries_succ, bind_eq_some_iff] at h ⊢
  obtain ⟨⟨k, rest₁⟩, hk, h⟩ := h
  obtain ⟨⟨v, rest₂⟩, hv, h⟩ := bind_eq_some_iff.1 h
  obtain ⟨⟨es', rest₃⟩, hes, heq⟩ := bind_eq_some_iff.1 h
  refine ⟨_, hlocal.value more hk hfuel, ?_⟩
  refine bind_eq_some_iff.2 ⟨_, hlocal.field more hv hfuel, ?_⟩
  exact bind_eq_some_iff.2 ⟨_, hlocal.entries more hes hfuel, some_append heq⟩

lemma IsLocal.readField_succ {isOnPath : Bool} (h : readField isOnPath path (fuel + 1) bs = some (v, rest)) :
    readField isOnPath path (fuel' + 1) (bs ++ more) = some (v, rest ++ more) := by
  rw [readField.eq_def] at h ⊢
  dsimp only at h ⊢
  split at h
  · rename_i hhead
    rw [head?_append hhead]
    dsimp only [cons_append]
    split at h
    · rename_i hinner
      rw [head?_append hinner]
      exact map_append (fun es => Pack.led (.map es)) h fun _ _ hentries => hlocal.entries more hentries hfuel
    · rename_i hinner
      rw [head?_append hinner]
      exact some_append h
    · cases h
  · -- at the end of the input, a header of tagged bytes would find a tag in what follows; but then nothing was read
    rename_i hother
    obtain ⟨hd, rest', hhead, htagged⟩ := exists_head?_of_readValue h
    rw [head?_append hhead]
    split
    · rename_i heq
      obtain ⟨rfl, hrest⟩ := Prod.mk.inj (some.inj heq)
      obtain ⟨tag, rest', rfl⟩ := exists_cons_of_ne_nil (htagged _ rfl)
      exact (hother _ _ _ rfl hhead).elim
    · exact hlocal.value more h hfuel
    · contradiction
  · exact hlocal.value more h hfuel

end Step

lemma isLocal (fuel : Nat) : IsLocal fuel := by
  induction fuel with
  | zero => exact isLocal_zero
  | succ fuel ih =>
    have hpos : ∀ {fuel'}, fuel + 1 ≤ fuel' → ∃ n, fuel ≤ n ∧ fuel' = n + 1 := fun {fuel'} h =>
      ⟨fuel' - 1, by omega, by omega⟩
    constructor <;> intros <;> obtain ⟨n, hn, rfl⟩ := hpos ‹_›
    · exact ih.readValue_succ hn ‹_›
    · exact ih.readItems_succ hn ‹_›
    · exact ih.readEntries_succ hn ‹_›
    · exact ih.readField_succ hn ‹_›

lemma read?_append (h : read? bs path = some (v, rest)) : read? (bs ++ more) path = some (v, rest ++ more) :=
  (isLocal _).value more h (by rw [length_append]; omega)

variable {p : Pack} {n : Nat} {path : FieldPath} {tags : Prop}

/-! ### Numbers behind a header -/

lemma length_bigEndian (width x : Nat) : (bigEndian width x).length = width := by
  induction width with
  | zero => rfl
  | succ n ih => rw [bigEndian, length_cons, ih]

lemma foldl_bigEndian (width x acc : Nat) : (bigEndian width x).foldl (fun acc b => acc * 256 + b.toNat) acc =
      acc * 256 ^ width + x % 256 ^ width := by
  induction width generalizing acc with
  | zero => simp [bigEndian, Nat.mod_one]
  | succ n ih =>
    have hbyte : (UInt8.ofNat (x / Nat.pow 256 n)).toNat = x / 256 ^ n % 256 := UInt8.toNat_ofNat'
    rw [bigEndian, foldl_cons, ih, hbyte, Nat.pow_succ, Nat.mod_mul]
    ring

lemma ofBigEndian_bigEndian (width x : Nat) : ofBigEndian (bigEndian width x) = x % 256 ^ width := by
  rw [ofBigEndian, foldl_bigEndian, Nat.zero_mul, Nat.zero_add]

lemma splitBytes?_append (bs rest : List UInt8) : splitBytes? bs.length (bs ++ rest) = some (bs, rest) := by
  rw [splitBytes?, take_left, drop_left]
  exact if_pos rfl

lemma sized?_append (width x : Nat) (f : Nat → Head) (rest : List UInt8) :
    sized? width f (bigEndian width x ++ rest) = some (f (x % 256 ^ width), rest) := by
  have hsplit := splitBytes?_append (bigEndian width x) rest
  rw [length_bigEndian] at hsplit
  simp only [sized?, number?, hsplit, map_some, ofBigEndian_bigEndian]

lemma complement_lt (bits : Nat) (n : Int) : complement bits n < 2 ^ bits := by
  have hpos : (0 : Int) < (Nat.pow 2 bits : Nat) := Int.natCast_pos.2 (Nat.two_pow_pos bits)
  have hlt := Int.emod_lt_of_pos n hpos
  have hnn := Int.emod_nonneg n (Int.ne_of_gt hpos)
  rw [complement, Word.unsigned, Word.span]
  change (n % ((Nat.pow 2 bits : Nat) : Int)).toNat < Nat.pow 2 bits
  omega

lemma ofComplement_complement {bits : Nat} {n : Int} (hlo : -(2 ^ bits : Nat) ≤ n)
    (hhi : n < (2 ^ bits : Nat)) : ofComplement (bits + 1) (complement (bits + 1) n) = n := by
  have hpow : 2 ^ (bits + 1) = 2 * 2 ^ bits := by rw [Nat.pow_succ, Nat.mul_comm]
  simp only [ofComplement, complement, Word.unsigned, Word.span, Nat.pow_eq, Nat.add_sub_cancel, hpow]
  generalize 2 ^ bits = m at hlo hhi
  rcases Int.lt_or_le n 0 with hneg | hpos
  · have hmod : n % ((2 * m : Nat) : Int) = n + (2 * m : Nat) := by
      rw [← Int.add_emod_right, Int.emod_eq_of_lt (by omega) (by omega)]
    rw [hmod]
    split <;> omega
  · have hmod : n % ((2 * m : Nat) : Int) = n := Int.emod_eq_of_lt hpos (by omega)
    rw [hmod]
    split <;> omega

/-! ### Values that can be written -/

def IsWritableInt (n : Int) : PackWidth → Prop
  | .shortest => -0x8000000000000000 ≤ n ∧ n < 0x10000000000000000
  | .word32 => 0 ≤ n ∧ n < 0x100000000
  | .word64 => -0x8000000000000000 ≤ n ∧ n < 0x8000000000000000

mutual

/-- Whether the numbers and sizes of a value fit the headers of the format. Tagged bytes count only
where they are allowed. -/
def IsWritable (tags : Prop) : Pack → Prop
  | .nil | .bool _ => True
  | .int n width => IsWritableInt n width
  | .bytes bs | .blob bs => bs.length < 0x100000000
  | .array xs => xs.length < 0x100000000 ∧ AreWritable tags xs
  | .map es => es.length < 0x100000000 ∧ AreEntriesWritable tags es
  | .tagged _ bs => tags ∧ bs.length < 0x100000000
  | .led _ | .foreign => False

def AreWritable (tags : Prop) : List Pack → Prop
  | [] => True
  | x :: xs => x.IsWritable tags ∧ AreWritable tags xs

def AreEntriesWritable (tags : Prop) : List (Pack × Pack) → Prop
  | [] => True
  | (k, v) :: es => k.IsWritable tags ∧ v.IsWritable tags ∧ AreEntriesWritable tags es

end

mutual

def asRead : Pack → Pack
  | .int n _ => .int n .shortest
  | .blob bs => .bytes bs
  | .array xs => .array (itemsAsRead xs)
  | .map es => .map (entriesAsRead es)
  | p => p

def itemsAsRead : List Pack → List Pack
  | [] => []
  | x :: xs => x.asRead :: itemsAsRead xs

def entriesAsRead : List (Pack × Pack) → List (Pack × Pack)
  | [] => []
  | (k, v) :: es => (k.asRead, v.asRead) :: entriesAsRead es

end

def head : Pack → Head
  | .bytes bs | .blob bs => .bytes bs.length
  | .array xs => .array xs.length
  | .map es => .map es.length
  | .tagged _ bs => .tagged bs.length
  | p => .value p.asRead

/-- What follows the header of a value. -/
def body : Pack → List UInt8
  | .bytes bs | .blob bs => bs
  | .array xs => writeItems xs
  | .map es => writeEntries es
  | .tagged tag bs => tag :: bs
  | _ => []

/-! ### Headers -/

lemma head?_headed {tag : UInt8} {width x : Nat} {f : Nat → Head} (hx : x < 256 ^ width)
    (htag : ∀ bs, head? (tag :: bs) = sized? width f bs) (rest : List UInt8) :
    head? (headed tag width x ++ rest) = some (f x, rest) := by
  rw [headed, cons_append, htag, sized?_append, Nat.mod_eq_of_lt hx]

section

variable (h : n < 0x100000000)
include h

lemma head?_textHeader (rest : List UInt8) : head? (textHeader n ++ rest) = some (.bytes n, rest) := by
  unfold textHeader
  split_ifs
  · simp only [cons_append, nil_append, head?, UInt8.toNat_ofNat']
    rw [if_neg (by omega), if_neg (by omega), if_neg (by omega), if_pos (by omega),
      Nat.mod_eq_of_lt (by omega), Nat.add_sub_cancel_left]
  all_goals exact head?_headed (by omega) (fun _ => rfl) rest

lemma head?_blobHeader (rest : List UInt8) : head? (blobHeader n ++ rest) = some (.bytes n, rest) := by
  unfold blobHeader
  split_ifs <;> exact head?_headed (by omega) (fun _ => rfl) rest

lemma head?_arrayHeader (rest : List UInt8) : head? (arrayHeader n ++ rest) = some (.array n, rest) := by
  unfold arrayHeader
  split_ifs
  · simp only [cons_append, nil_append, head?, UInt8.toNat_ofNat']
    rw [if_neg (by omega), if_neg (by omega), if_pos (by omega), Nat.mod_eq_of_lt (by omega), Nat.add_sub_cancel_left]
  all_goals exact head?_headed (by omega) (fun _ => rfl) rest

lemma head?_mapHeader (rest : List UInt8) : head? (mapHeader n ++ rest) = some (.map n, rest) := by
  unfold mapHeader
  split_ifs
  · simp only [cons_append, nil_append, head?, UInt8.toNat_ofNat']
    rw [if_neg (by omega), if_pos (by omega), Nat.mod_eq_of_lt (by omega), Nat.add_sub_cancel_left]
  all_goals exact head?_headed (by omega) (fun _ => rfl) rest

lemma head?_tagHeader (rest : List UInt8) : head? (tagHeader n ++ rest) = some (.tagged n, rest) := by
  unfold tagHeader
  split
  iterate 5 rfl
  split_ifs <;> exact head?_headed (by omega) (fun _ => rfl) rest

end

lemma head?_signed {tag : UInt8} {width bits : Nat} {n : Int} (hwidth : 2 ^ (bits + 1) = 256 ^ width)
    (htag : ∀ bs, head? (tag :: bs) = sized? width (signed (bits + 1)) bs) (hlo : -(2 ^ bits : Nat) ≤ n)
    (hhi : n < (2 ^ bits : Nat)) (rest : List UInt8) :
    head? (headed tag width (complement (bits + 1) n) ++ rest) = some (.value (.int n .shortest), rest) := by
  rw [head?_headed (hwidth ▸ complement_lt (bits + 1) n) htag, signed, ofComplement_complement hlo hhi]

lemma head?_writeShortest {n : Int} (h : IsWritableInt n .shortest) (rest : List UInt8) :
    head? (writeShortest n ++ rest) = some (.value (.int n .shortest), rest) := by
  obtain ⟨hlo, hhi⟩ := h
  unfold writeShortest
  split
  · obtain ⟨x, rfl⟩ := Int.eq_ofNat_of_zero_le ‹0 ≤ n›
    simp only [Int.toNat_natCast]
    split_ifs
    · -- a small number is its own header, as is a small negative one below
      simp only [cons_append, nil_append, head?, UInt8.toNat_ofNat']
      rw [Nat.mod_eq_of_lt (by omega), if_pos (by omega)]
    all_goals exact head?_headed (f := unsigned) (by omega) (fun _ => rfl) rest
  split
  · have hc : complement 8 n = (n + 0x100).toNat := by
      simp only [complement, Word.unsigned, Word.span, Nat.pow_eq, Nat.reducePow]
      omega
    simp only [cons_append, nil_append, head?, UInt8.toNat_ofNat', hc]
    rw [if_neg (by omega), if_neg (by omega), if_neg (by omega), if_neg (by omega), if_pos (by omega)]
    congr 4
    omega
  split_ifs <;> exact head?_signed rfl (fun _ => rfl) (by omega) (by omega) rest

lemma head?_writeInt {n : Int} {width : PackWidth} (h : IsWritableInt n width) (rest : List UInt8) :
    head? (writeInt n width ++ rest) = some (.value (.int n .shortest), rest) := by
  cases width with
  | shortest => exact head?_writeShortest h rest
  | word32 =>
    obtain ⟨hlo, hhi⟩ := h
    have hc : (complement 32 n : Int) = n := by
      simp only [complement, Word.unsigned, Word.span, Nat.pow_eq, Nat.reducePow]
      omega
    rw [writeInt, head?_headed (f := unsigned) (complement_lt 32 n) (fun _ => rfl), unsigned, hc]
  | word64 => exact head?_signed rfl (fun _ => rfl) (by have := h.1; omega) (by have := h.2; omega) rest

lemma head?_write (h : p.IsWritable tags) (rest : List UInt8) :
    head? (p.write ++ rest) = some (p.head, p.body ++ rest) := by
  cases p with
  | nil => rfl
  | bool b => cases b <;> rfl
  | int n width => rw [write, head?_writeInt h]; rfl
  | bytes bs => rw [write, append_assoc, head?_textHeader h]; rfl
  | blob bs => rw [write, append_assoc, head?_blobHeader h]; rfl
  | array xs => rw [write, append_assoc, head?_arrayHeader h.1]; rfl
  | map es => rw [write, append_assoc, head?_mapHeader h.1]; rfl
  | tagged tag bs => rw [write, append_assoc, head?_tagHeader h.2]; rfl
  | led p => exact h.elim
  | foreign => exact h.elim

lemma length_body_lt (p : Pack) : p.body.length < p.write.length := by
  cases p with
  | nil | led | foreign => exact Nat.succ_pos _
  | bool b => cases b <;> exact Nat.succ_pos _
  | int n width =>
    cases width with
    | shortest =>
      simp only [write, writeInt, writeShortest]
      split_ifs <;> exact Nat.succ_pos _
    | word32 | word64 => exact Nat.succ_pos _
  | bytes | blob | array | map =>
    simp only [write, length_append, textHeader, blobHeader, arrayHeader, mapHeader]
    split_ifs <;> exact Nat.lt_add_of_pos_left (Nat.succ_pos _)
  | tagged tag bs =>
    have hheader : 0 < (tagHeader bs.length).length := by
      unfold tagHeader
      split
      case h_6 => split_ifs <;> exact Nat.succ_pos _
      all_goals exact Nat.succ_pos _
    rw [write, length_append]
    exact Nat.lt_add_of_pos_left hheader

lemma length_write_pos (p : Pack) : 0 < p.write.length := Nat.zero_lt_of_lt p.length_body_lt

/-! ### Values -/

lemma head?_write_ne_tagged (htags : ¬ tags) (h : p.IsWritable tags) (rest : List UInt8) (n : Nat)
    (rest' : List UInt8) : head? (p.write ++ rest) ≠ some (.tagged n, rest') := by
  rw [head?_write h]
  cases p with
  | tagged tag bs => exact absurd h.1 htags
  | _ => exact fun heq => by cases heq

/-- A field is read like any value, since no tagged bytes stand where the path leads. -/
lemma readField_write {isOnPath : Bool} {fuel : Nat} {rest : List UInt8} (hpath : tags → isOnPath = false)
    (h : p.IsWritable tags)
    (hvalue : ∀ path, (tags → path = []) → readValue path fuel (p.write ++ rest) = some (p.asRead, rest)) :
    readField isOnPath path (fuel + 1) (p.write ++ rest) = some (p.asRead, rest) := by
  cases isOnPath with
  | false =>
    rw [readField.eq_def]
    exact hvalue [] fun _ => rfl
  | true =>
    have htags : ¬ tags := fun ht => Bool.noConfusion (hpath ht)
    rw [readField.eq_def]
    dsimp only
    split
    · exact absurd ‹_› (head?_write_ne_tagged htags h rest _ _)
    · exact hvalue _ fun ht => absurd ht htags
    · contradiction

section

variable {tags : Prop}

mutual

lemma readValue_write {path : FieldPath} (hpath : tags → path = []) :
    ∀ (p : Pack) {fuel : Nat}, p.IsWritable tags → 3 * p.write.length ≤ fuel + 2 →
      ∀ rest, readValue path fuel (p.write ++ rest) = some (p.asRead, rest)
  | p, fuel, h, hfuel, rest => by
    have hhead := head?_write h rest
    have hbody := p.length_body_lt
    obtain ⟨n, rfl⟩ := Nat.exists_eq_succ_of_ne_zero (show fuel ≠ 0 by omega)
    rw [readValue, hhead]
    cases p with
    | nil => rfl
    | bool b => rfl
    | int n width => rfl
    | bytes bs | blob bs => simp only [head, body, splitBytes?_append, map_some, asRead]
    | tagged tag bs =>
      simp only [head, body, cons_append, splitBytes?_append, map_some, asRead]
    | array xs =>
      simp only [head, body] at hbody ⊢
      rw [readItems_writeItems hpath xs h.2 (by omega) 0 rest]
      rfl
    | map es =>
      simp only [head, body] at hbody ⊢
      rw [readEntries_writeEntries hpath es h.2 (by omega) rest]
      rfl
    | led p => exact h.elim
    | foreign => exact h.elim

lemma readItems_writeItems {path : FieldPath} (hpath : tags → path = []) :
    ∀ (xs : List Pack) {fuel : Nat}, AreWritable tags xs → 3 * (writeItems xs).length ≤ fuel →
      ∀ index rest, readItems path index fuel xs.length (writeItems xs ++ rest) = some (itemsAsRead xs, rest)
  | [], fuel, h, hfuel, index, rest => by cases fuel <;> rfl
  | x :: xs, fuel, h, hfuel, index, rest => by
    have hx := length_write_pos x
    rw [writeItems, length_append] at hfuel
    obtain ⟨n, rfl⟩ : ∃ n, fuel = n + 2 := ⟨fuel - 2, by omega⟩
    have hvalue : ∀ path, (tags → path = []) →
        readValue path n (x.write ++ (writeItems xs ++ rest)) = some (x.asRead, writeItems xs ++ rest) :=
      fun path hpath => readValue_write hpath x h.1 (by omega) _
    have hfield : readField (isItemOn path index) path.tail (n + 1) (x.write ++ (writeItems xs ++ rest)) =
        some (x.asRead, writeItems xs ++ rest) :=
      readField_write (fun ht => by rw [hpath ht]; rfl) h.1 hvalue
    have hitems := readItems_writeItems hpath xs h.2 (show _ ≤ n + 1 by omega) (index + 1) rest
    rw [writeItems, append_assoc, length_cons, readItems_succ, hfield]
    dsimp only [bind_some]
    rw [hitems]
    rfl

lemma readEntries_writeEntries {path : FieldPath} (hpath : tags → path = []) :
    ∀ (es : List (Pack × Pack)) {fuel : Nat}, AreEntriesWritable tags es →
      3 * (writeEntries es).length ≤ fuel →
      ∀ rest, readEntries path fuel es.length (writeEntries es ++ rest) = some (entriesAsRead es, rest)
  | [], fuel, h, hfuel, rest => by cases fuel <;> rfl
  | (k, v) :: es, fuel, h, hfuel, rest => by
    obtain ⟨hk, hv, hes⟩ := h
    have hkpos := length_write_pos k
    have hvpos := length_write_pos v
    rw [writeEntries, length_append, length_append] at hfuel
    -- an entry takes one unit of fuel, and its value another, as it is read through a field
    obtain ⟨n, rfl⟩ : ∃ n, fuel = n + 2 := ⟨fuel - 2, by omega⟩
    have hkey : readValue [] (n + 1) (k.write ++ (v.write ++ (writeEntries es ++ rest))) =
        some (k.asRead, v.write ++ (writeEntries es ++ rest)) :=
      readValue_write (fun _ => rfl) k hk (by omega) _
    have hvalue : ∀ path, (tags → path = []) →
        readValue path n (v.write ++ (writeEntries es ++ rest)) = some (v.asRead, writeEntries es ++ rest) :=
      fun path hpath => readValue_write hpath v hv (by omega) _
    have hfield : readField (isEntryOn path k.asRead) path.tail (n + 1) (v.write ++ (writeEntries es ++ rest)) =
        some (v.asRead, writeEntries es ++ rest) :=
      readField_write (fun ht => by rw [hpath ht]; rfl) hv hvalue
    have hentries := readEntries_writeEntries hpath es hes (show _ ≤ n + 1 by omega) rest
    rw [writeEntries, append_assoc, append_assoc, length_cons, readEntries_succ, hkey]
    dsimp only [bind_some]
    rw [hfield]
    dsimp only [bind_some]
    rw [hentries]
    rfl

end

lemma readEntries_write {k v : Pack} (hk : k.IsWritable tags) (hv : v.IsWritable tags) {fuel : Nat}
    (hfuel : 3 * (k.write.length + v.write.length) ≤ fuel) (n : Nat) (rest : List UInt8) :
    readEntries [] (fuel + 1) (n + 1) (k.write ++ (v.write ++ rest)) =
      (readEntries [] fuel n rest).map fun r => ((k.asRead, v.asRead) :: r.1, r.2) := by
  have hvpos := length_write_pos v
  obtain ⟨m, rfl⟩ : ∃ m, fuel = m + 1 := ⟨fuel - 1, by omega⟩
  have hkey : readValue [] (m + 1) (k.write ++ (v.write ++ rest)) = some (k.asRead, v.write ++ rest) :=
    readValue_write (fun _ => rfl) k hk (by omega) _
  have hfield : readField (isEntryOn [] k.asRead) [] (m + 1) (v.write ++ rest) = some (v.asRead, rest) :=
    readField_write (fun _ => rfl) hv fun path hpath => readValue_write hpath v hv (by omega) rest
  rw [readEntries_succ, hkey]
  dsimp only [bind_some, tail_nil]
  rw [hfield]
  dsimp only [bind_some]
  cases readEntries [] (m + 1) n rest <;> rfl

lemma read?_write (hpath : tags → path = []) (h : p.IsWritable tags) (rest : List UInt8) :
    read? (p.write ++ rest) path = some (p.asRead, rest) :=
  readValue_write hpath p h (by rw [length_append]; omega) rest

lemma read?_write_self (h : p.IsWritable tags) : read? p.write = some (p.asRead, []) := by
  have hread : read? (p.write ++ []) = some (p.asRead, []) := read?_write (fun _ => rfl) h []
  rwa [append_nil] at hread

/-- Nothing is read from the first bytes of a value without the rest of them. -/
lemma read?_eq_none_of_prefix (hpath : tags → path = []) (h : p.IsWritable tags) {bs : List UInt8}
    (hbs : bs <+: p.write) (hne : bs ≠ p.write) : read? bs path = none := by
  obtain ⟨more, hmore⟩ := hbs
  rcases hread : read? bs path with _ | ⟨v, rest⟩
  · rfl
  -- with the rest behind them, the same is read and the rest is left over; but the whole value leaves nothing
  have hwhole : read? (p.write ++ []) path = some (v, rest ++ more) := by
    rw [append_nil, ← hmore]
    exact read?_append hread
  rw [read?_write hpath h] at hwhole
  have hrest : [] = rest ++ more := (Prod.mk.inj (some.inj hwhole)).2
  obtain rfl := (append_eq_nil_iff.1 hrest.symm).2
  exact absurd ((append_nil bs).symm.trans hmore) hne

end

/-! ### Numbers and sizes -/

mutual

/-- Whether the numbers of a value fit their widths. Sizes are not looked at. -/
def HasNumbers (tags : Prop) : Pack → Prop
  | .nil | .bool _ | .bytes _ | .blob _ => True
  | .int n width => IsWritableInt n width
  | .array xs => HaveNumbers tags xs
  | .map es => EntriesHaveNumbers tags es
  | .tagged _ _ => tags
  | .led _ | .foreign => False

def HaveNumbers (tags : Prop) : List Pack → Prop
  | [] => True
  | x :: xs => x.HasNumbers tags ∧ HaveNumbers tags xs

def EntriesHaveNumbers (tags : Prop) : List (Pack × Pack) → Prop
  | [] => True
  | (k, v) :: es => k.HasNumbers tags ∧ v.HasNumbers tags ∧ EntriesHaveNumbers tags es

end

mutual

/-- Whether every text, list and map of a value has a size that a header has room for. -/
def HasSizes : Pack → Prop
  | .bytes bs | .blob bs | .tagged _ bs => bs.length < 0x100000000
  | .array xs => xs.length < 0x100000000 ∧ HaveSizes xs
  | .map es => es.length < 0x100000000 ∧ EntriesHaveSizes es
  | _ => True

def HaveSizes : List Pack → Prop
  | [] => True
  | x :: xs => x.HasSizes ∧ HaveSizes xs

def EntriesHaveSizes : List (Pack × Pack) → Prop
  | [] => True
  | (k, v) :: es => k.HasSizes ∧ v.HasSizes ∧ EntriesHaveSizes es

end

mutual

lemma isWritable_of_hasSizes {tags : Prop} : ∀ p : Pack, p.HasNumbers tags → p.HasSizes → p.IsWritable tags
  | .nil, _, _ | .bool _, _, _ => trivial
  | .int _ _, h, _ => h
  | .bytes _, _, hsizes | .blob _, _, hsizes => hsizes
  | .tagged _ _, h, hsizes => ⟨h, hsizes⟩
  | .array xs, h, hsizes => ⟨hsizes.1, areWritable_of_haveSizes xs h hsizes.2⟩
  | .map es, h, hsizes => ⟨hsizes.1, areEntriesWritable_of_haveSizes es h hsizes.2⟩

lemma areWritable_of_haveSizes {tags : Prop} :
    ∀ xs : List Pack, HaveNumbers tags xs → HaveSizes xs → AreWritable tags xs
  | [], _, _ => trivial
  | x :: xs, h, hsizes => ⟨isWritable_of_hasSizes x h.1 hsizes.1, areWritable_of_haveSizes xs h.2 hsizes.2⟩

lemma areEntriesWritable_of_haveSizes {tags : Prop} :
    ∀ es : List (Pack × Pack), EntriesHaveNumbers tags es → EntriesHaveSizes es → AreEntriesWritable tags es
  | [], _, _ => trivial
  | (k, v) :: es, h, hsizes => ⟨isWritable_of_hasSizes k h.1 hsizes.1, isWritable_of_hasSizes v h.2.1 hsizes.2.1,
      areEntriesWritable_of_haveSizes es h.2.2 hsizes.2.2⟩

end

end BytecodeAudit.Pack
