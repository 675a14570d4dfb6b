import BytecodeAudit.Cache
import BytecodeAudit.Proofs.Disk.Spelling
import BytecodeAudit.Proofs.Text.Lossless

/-!
# The entries of a cache on a disk

The file of a key has a name that is made of the sixty-four digits of a hash (`isHex_hash`) and an
extension (`isName_entryName`). A look-up and a store touch nothing but the file of an entry
(`Touches`), so every path that is apart from the entries reads as before. Hence what holds of every
entry, `AllEntries`, goes on to hold after each call, as long as it holds of what is stored.
-/

namespace BytecodeAudit

open List

open Text

namespace Text

def hexChars : List Char := ['0', '1', '2', '3', '4', '5', '6', '7', '8', '9', 'a', 'b', 'c', 'd', 'e', 'f']

def IsHex (s : String) : Prop := ∀ c ∈ s.toList, c ∈ hexChars

lemma IsHex.isAscii {s : String} (h : IsHex s) : IsAscii s := by
  have hascii : hexChars.all (·.toNat < 0x80) := by decide
  exact fun c hc => of_decide_eq_true (all_eq_true.1 hascii c (h c hc))

lemma IsHex.append {s t : String} (hs : IsHex s) (ht : IsHex t) : IsHex (s ++ t) := by
  intro c hc
  rw [String.toList_append, mem_append] at hc
  exact hc.elim (hs c) (ht c)

lemma mem_toDigits_sixteen {n : Nat} (h : n < 256) : ∀ c ∈ Nat.toDigits 16 n, c ∈ hexChars := by
  have hdigit : ∀ k < 16, Nat.digitChar k ∈ hexChars := by decide
  rw [Nat.toDigits_eq_if (by decide)]
  split
  · rename_i hn
    exact fun c hc => mem_singleton.1 hc ▸ hdigit n hn
  · rw [Nat.toDigits_of_lt_base (show n / 16 < 16 by omega)]
    have hhigh := hdigit (n / 16) (by omega)
    have hlow := hdigit (n % 16) (by omega)
    exact forall_mem_cons.2 ⟨hhigh, fun c hc => mem_singleton.1 hc ▸ hlow⟩

lemma length_hexDigits_two {n : Nat} (h : n < 256) : (hexDigits 2 n).length = 2 := by
  have hle : (Nat.toDigits 16 n).length ≤ 2 := (Nat.length_toDigits_le_iff (by decide) (by decide)).2 h
  simp only [hexDigits, String.length_ofList, length_append, length_replicate]
  omega

lemma isHex_hexDigits_two {n : Nat} (h : n < 256) : IsHex (hexDigits 2 n) := by
  intro c hc
  rw [hexDigits, String.toList_ofList, mem_append] at hc
  rcases hc with hc | hc
  · rw [(mem_replicate.1 hc).2]
    decide
  · exact mem_toDigits_sixteen h c hc

end Text

namespace Digest.Blake3

lemma size_compress (chain block : Array UInt32) (counter : UInt64) (size flags : UInt32) :
    (compress chain block counter size flags).size = 8 := rfl

lemma size_chunkBlocks {fuel : Nat} {chain : Chain} (hchain : chain.size = 8) (counter : UInt64)
    (flags final : UInt32) (bs : List UInt8) : (chunkBlocks fuel chain counter flags final bs).size = 8 := by
  induction fuel generalizing chain flags bs with
  | zero => exact hchain
  | succ n ih =>
    rw [chunkBlocks]
    split
    · exact size_compress ..
    · exact ih (size_compress ..) _ _

lemma size_tree (fuel counter : Nat) (final : UInt32) (bs : List UInt8) : (tree fuel counter final bs).size = 8 := by
  cases fuel with
  | zero => rfl
  | succ n =>
    rw [tree]
    split
    · exact size_chunkBlocks rfl ..
    · exact size_compress ..

def wordDigits (w : UInt32) : String :=
  hexDigits 2 (w &&& 0xff).toNat ++ hexDigits 2 ((w >>> 8) &&& 0xff).toNat ++
    hexDigits 2 ((w >>> 16) &&& 0xff).toNat ++ hexDigits 2 (w >>> 24).toNat

variable (bs : List UInt8)

lemma hash_eq :
    hash bs = String.join ((tree (Nat.log2 (bs.length + 1) + 2) 0 root bs).toList.map wordDigits) := rfl

lemma bytes_lt (w : UInt32) : (w &&& 0xff).toNat < 256 ∧ (w >>> 24).toNat < 256 := by
  have hw := w.toNat_lt
  constructor
  · rw [UInt32.toNat_and]
    exact Nat.lt_of_le_of_lt Nat.and_le_right (by decide)
  · change w.toNat >>> 24 < 256
    rw [Nat.shiftRight_eq_div_pow]
    omega

lemma length_wordDigits (w : UInt32) : (wordDigits w).length = 8 := by
  simp only [wordDigits, String.length_append, length_hexDigits_two (bytes_lt _).1, length_hexDigits_two (bytes_lt w).2]

lemma isHex_wordDigits (w : UInt32) : IsHex (wordDigits w) :=
  (((isHex_hexDigits_two (bytes_lt w).1).append (isHex_hexDigits_two (bytes_lt _).1)).append
    (isHex_hexDigits_two (bytes_lt _).1)).append (isHex_hexDigits_two (bytes_lt w).2)

lemma length_hash : (hash bs).length = 64 := by
  have hsize := size_tree (Nat.log2 (bs.length + 1) + 2) 0 root bs
  rw [hash_eq]
  generalize tree (Nat.log2 (bs.length + 1) + 2) 0 root bs = chain at hsize
  simp only [String.length_join, map_map, Function.comp_def, length_wordDigits]
  rw [map_const', Array.length_toList, hsize]
  rfl

lemma isHex_hash : IsHex (hash bs) := by
  intro c hc
  rw [hash_eq, String.toList_join] at hc
  obtain ⟨s, hs, hc⟩ := mem_flatMap.1 hc
  obtain ⟨w, -, rfl⟩ := mem_map.1 hs
  exact isHex_wordDigits w c hc

end Digest.Blake3

namespace Cache

open Option

open Digest Disk

variable {now : Instant} {data : Bytes}

variable {c : Cache} {d d' d'' : Disk}

/-! ### Entry files -/

def entryName (key : String) : String := Blake3.hash (Text.toBytes key) ++ entryExtension

lemma isName_entryName (key : String) : Path.IsName (entryName key) := by
  have hdigits := Blake3.isHex_hash (Text.toBytes key)
  have hlength : (entryName key).length = 67 := by
    rw [entryName, String.length_append, Blake3.length_hash]
    rfl
  have hne : ∀ name : String, name.length ≠ 67 → entryName key ≠ name := by
    rintro name hname rfl
    exact hname hlength
  refine ⟨fun hslash => ?_, hne _ (by decide), hne _ (by decide), hne _ (by decide)⟩
  rw [entryName, String.toList_append, List.mem_append] at hslash
  rcases hslash with hslash | hslash
  · exact absurd (hdigits _ hslash) (by decide)
  · exact absurd hslash (by decide)

/-! ### Paths that are apart from the entries -/

def IsApart (c : Cache) (d : Disk) (path : String) : Prop :=
  ∀ key p, (d.place (c.entryPath key)).toOption = some p → (d.place path).toOption ≠ some p

/-- Whether one disk comes from another by changes to files of entries only. -/
structure Touches (c : Cache) (d d' : Disk) : Prop where
  isTree : d'.IsTree
  place_eq : ∀ path, (d'.place path).toOption = (d.place path).toOption
  read_eq : ∀ path, c.IsApart d path → (d'.read path).toOption = (d.read path).toOption

lemma touches_refl (c : Cache) (hd : d.IsTree) : c.Touches d d := ⟨hd, fun _ => rfl, fun _ _ => rfl⟩

lemma Touches.isApart (h : c.Touches d d') {path : String} (hpath : c.IsApart d path) : c.IsApart d' path := by
  intro key p hp
  rw [h.place_eq] at hp ⊢
  exact hpath key p hp

lemma Touches.trans (h : c.Touches d d') (h' : c.Touches d' d'') : c.Touches d d'' where
  isTree := h'.isTree
  place_eq path := (h'.place_eq path).trans (h.place_eq path)
  read_eq path hpath := (h'.read_eq path (h.isApart hpath)).trans (h.read_eq path hpath)

lemma touches_of_changesFile (hd : d.IsTree) {key : String} {p : Place}
    (hp : (d.place (c.entryPath key)).toOption = some p) (h : ChangesFile p d d') : c.Touches d d' where
  isTree := h.isTree
  place_eq := h.place_eq hd
  read_eq _ hpath := h.read_eq hd (hpath key p hp)

/-! ### What holds of every entry -/

def AllEntries (c : Cache) (P : CacheEntry → Prop) (d : Disk) : Prop := ∀ key e, c.entry? key d = some e → P e

variable {P : CacheEntry → Prop}

lemma AllEntries.of_changesFile (h : c.AllEntries P d) (hd : d.IsTree) {p : Place} (hp : ChangesFile p d d')
    (hnew : ∀ bs e, d'.at? p = some (.file bs) → CacheEntry.decode? bs = some e → P e) : c.AllEntries P d' := by
  intro key e he
  by_cases hplace : (d.place (c.entryPath key)).toOption = some p
  · obtain ⟨bs, hbs, he⟩ := bind_eq_some_iff.1 he
    obtain ⟨q, hq, hfile⟩ := toOption_read_eq_some_iff.1 hbs
    rw [hp.place_eq hd, hplace] at hq
    cases hq
    exact hnew bs e hfile he
  · unfold entry? at he
    rw [hp.read_eq hd hplace] at he
    exact h key e he

lemma AllEntries.of_isPart (h : c.AllEntries P d) (hd : d.IsTree) (hpart : IsPart d' d) : c.AllEntries P d' := by
  intro key e he
  obtain ⟨bs, hbs, he⟩ := bind_eq_some_iff.1 he
  refine h key e ?_
  unfold entry?
  rw [hpart.read_eq_some hd hbs]
  exact he

lemma entry?_congr {c' : Cache} (h : c.directory = c'.directory) (key : String) (d : Disk) :
    c.entry? key d = c'.entry? key d := by
  unfold entry?
  rw [entryPath, entryPath, h]

lemma AllEntries.congr {c' : Cache} (h : c.AllEntries P d) (hc : c'.directory = c.directory) : c'.AllEntries P d := by
  intro key e he
  have hsame := entry?_congr hc key d
  rw [hsame] at he
  exact h key e he

/-! ### The calls of a cache -/

lemma entry_of_get {key hash : String} (h : (c.get now key hash d).1 = some data) :
    ∃ e, c.entry? key d = some e ∧ e.hash = hash ∧ e.data = data := by
  unfold get at h
  split at h
  · cases h
  split at h
  · cases h
  rename_i e he
  split at h
  · cases h
  rename_i hhash
  split at h
  · cases h
  · exact ⟨e, he, by simpa using hhash, some.inj h⟩

lemma get_cases (c : Cache) (hd : d.IsTree) (now : Instant) (key hash : String) : (c.get now key hash d).2 = d ∨
      ∃ p, (d.place (c.entryPath key)).toOption = some p ∧ ChangesFile p d (c.get now key hash d).2 ∧
        (c.get now key hash d).2.at? p = none := by
  unfold get
  split
  · exact .inl rfl
  split
  · exact .inl rfl
  rename_i e he
  split
  · exact .inl rfl
  split
  · obtain ⟨bs, hbs, -⟩ := bind_eq_some_iff.1 he
    obtain ⟨p, d', hp, hremove, hchanges, hgone⟩ := hd.changesFile_remove hbs
    refine .inr ⟨p, hp, ?_⟩
    rw [hremove]
    exact ⟨hchanges, hgone⟩
  · exact .inl rfl

lemma set_cases (hd : d.IsTree) {key hash : String} (h : c.set now key hash data d = .ok d') :
    d' = d ∨ ∃ p, (d.place (c.entryPath key)).toOption = some p ∧ ChangesFile p d d' ∧
      d'.at? p = some (.file (CacheEntry.encode { hash, time := now, data })) := by
  unfold set at h
  split at h
  · exact .inl (Except.ok.inj h).symm
  rcases hwrite : d.write (c.entryPath key) (CacheEntry.encode { hash, time := now, data }) with e | d₁
  · rw [hwrite] at h
    cases h
  · rw [hwrite] at h
    obtain rfl : d₁ = d' := Except.ok.inj h
    exact .inr (hd.changesFile_write hwrite)

lemma touches_get (c : Cache) (hd : d.IsTree) (now : Instant) (key hash : String) :
    c.Touches d (c.get now key hash d).2 := by
  obtain hsame | ⟨p, hp, hchanges, -⟩ := c.get_cases hd now key hash
  · rw [hsame]
    exact c.touches_refl hd
  · exact touches_of_changesFile hd hp hchanges

lemma AllEntries.of_get (h : c.AllEntries P d) (hd : d.IsTree) (now : Instant) (key hash : String) :
    c.AllEntries P (c.get now key hash d).2 := by
  obtain hsame | ⟨p, -, hchanges, hgone⟩ := c.get_cases hd now key hash
  · rw [hsame]
    exact h
  · refine h.of_changesFile hd hchanges fun bs e hfile _ => ?_
    rw [hgone] at hfile
    cases hfile

lemma touches_set (hd : d.IsTree) {key hash : String} (h : c.set now key hash data d = .ok d') : c.Touches d d' := by
  obtain rfl | ⟨p, hp, hchanges, -⟩ := set_cases hd h
  · exact c.touches_refl hd
  · exact touches_of_changesFile hd hp hchanges

lemma AllEntries.of_set (h : c.AllEntries P d) (hd : d.IsTree) {key hash : String}
    (hset : c.set now key hash data d = .ok d')
    (hnew : ∀ e, CacheEntry.decode? (CacheEntry.encode { hash, time := now, data }) = some e → P e) :
    c.AllEntries P d' := by
  obtain rfl | ⟨p, -, hchanges, hfile⟩ := set_cases hd hset
  · exact h
  · refine h.of_changesFile hd hchanges fun bs e hbs he => ?_
    rw [hfile] at hbs
    obtain rfl : _ = bs := DiskNode.file.inj (some.inj hbs)
    exact hnew e he

lemma isPart_of_remove {path : String} (h : d.remove path = .ok d') : IsPart d' d := by
  unfold remove at h
  split at h
  · cases h
  · exact Except.ok.inj h ▸ isPart_erase d _
  · split at h
    · exact Except.ok.inj h ▸ isPart_erase d _
    · cases h

lemma isPart_invalidate (c : Cache) (key : String) (d : Disk) : IsPart ((c.invalidate key d).toOption.getD d) d := by
  unfold invalidate
  split
  · exact isPart_refl d
  split
  · rename_i d' hd'
    exact isPart_of_remove hd'
  · split <;> exact isPart_refl d

lemma isPart_clear (c : Cache) (d : Disk) : IsPart (c.clear d) d := by
  unfold clear
  split
  · unfold Disk.removeAll
    split
    · exact isPart_erase d _
    · exact isPart_refl d
  · exact isPart_refl d

end Cache

end BytecodeAudit
