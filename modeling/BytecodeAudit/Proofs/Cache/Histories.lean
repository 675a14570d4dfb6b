import BytecodeAudit.Proofs.Cache.Entries
import BytecodeAudit.Proofs.Disk.Saved
import BytecodeAudit.Proofs.Scan.FindingsRoundTrip

/-!
# Histories of a cache

What the calls of a cache answer after any others. As long as it was not cleared, a cache is a map
from keys to entries. `Shows` ties the file of a key to the latest entry that was stored for it;
every call keeps it (`Shows.append`): a look-up removes no file but those of expired entries, and
these stay expired.
-/

namespace BytecodeAudit

open List Option

open Digest Disk Pack

/-- Whether the packed form of an entry has room for all of it. -/
structure CacheEntry.IsFitting (e : CacheEntry) : Prop where
  hash : IsShortText e.hash
  data : e.data.length < 0x100000000
  time : e.time.IsPackable

namespace Cache

variable {e : CacheEntry}

/-! ### Calls -/

inductive Call where
  | set (key hash : String) (data : Bytes)
  | get (key hash : String)
  | invalidate (key : String)
  | clear
deriving DecidableEq, Repr

namespace Call

def apply (c : Cache) (now : Instant) : Call → Disk → Disk
  | .set key hash data, d => (c.set now key hash data d).toOption.getD d
  | .get key hash, d => (c.get now key hash d).2
  | .invalidate key, d => (c.invalidate key d).toOption.getD d
  | .clear, d => c.clear d

/-- Whether a call uses none but some keys, and what it stores at a time fits the packed form of an
entry. -/
def IsFitting (keys : Set String) (now : Instant) : Call → Prop
  | .set key hash data => key ∈ keys ∧ CacheEntry.IsFitting { hash, time := now, data }
  | .get key _ | .invalidate key => key ∈ keys
  | .clear => True

def key? : Call → Option String
  | .set key _ _ | .get key _ | .invalidate key => some key
  | .clear => none

def Ends (key : String) : Call → Prop
  | .set key' _ _ | .invalidate key' => key' = key
  | .get .. => False
  | .clear => True

end Call

/-- Calls in their order, each with its time. -/
abbrev History := List (Instant × Call)

def after (c : Cache) (past : History) (d : Disk) : Disk := past.foldl (fun d x => x.2.apply c x.1 d) d

lemma after_append (c : Cache) (past : History) (x : Instant × Call) (d : Disk) :
    c.after (past ++ [x]) d = x.2.apply c x.1 (c.after past d) := by
  rw [after, foldl_append]
  rfl

/-! ### Latest entries -/

/-- Whether an entry is the latest one that was stored for a key, and has not been ended since. -/
def IsLatest (past : History) (key : String) (e : CacheEntry) : Prop :=
  ∃ before later, past = before ++ (e.time, .set key e.hash e.data) :: later ∧ ∀ x ∈ later, ¬ x.2.Ends key

def keptAfter (key : String) (e : Option CacheEntry) : Instant × Call → Option CacheEntry
  | (now, .set key' hash data) => if key' = key then some { hash, time := now, data } else e
  | (_, .get ..) => e
  | (_, .invalidate key') => if key' = key then none else e
  | (_, .clear) => none

def latest? (past : History) (key : String) : Option CacheEntry := past.foldl (keptAfter key) none

lemma latest?_append (past : History) (x : Instant × Call) (key : String) :
    latest? (past ++ [x]) key = keptAfter key (latest? past key) x := by
  rw [latest?, foldl_append]
  rfl

lemma isLatest_append {past : History} {x : Instant × Call} {key : String} : IsLatest (past ++ [x]) key e ↔
      x = (e.time, .set key e.hash e.data) ∨ IsLatest past key e ∧ ¬ x.2.Ends key := by
  constructor
  · rintro ⟨before, later, hpast, hlater⟩
    rcases eq_nil_or_concat later with rfl | ⟨later, y, rfl⟩
    · obtain ⟨-, hx⟩ := append_inj' hpast rfl
      exact .inl (singleton_inj.1 hx)
    · have hsplit : past ++ [x] = (before ++ (e.time, .set key e.hash e.data) :: later) ++ [y] := by simpa using hpast
      obtain ⟨hbefore, hx⟩ := append_inj' hsplit rfl
      obtain rfl := singleton_inj.1 hx
      rw [concat_eq_append, forall_mem_append, forall_mem_singleton] at hlater
      exact .inr ⟨⟨before, later, hbefore, hlater.1⟩, hlater.2⟩
  · rintro (rfl | ⟨⟨before, later, rfl, hlater⟩, hx⟩)
    · exact ⟨past, [], rfl, nofun⟩
    · refine ⟨before, later ++ [x], by simp, ?_⟩
      rw [forall_mem_append, forall_mem_singleton]
      exact ⟨hlater, hx⟩

lemma latest?_eq_some_iff {past : History} {key : String} : latest? past key = some e ↔ IsLatest past key e := by
  induction past using reverseRecOn with
  | nil =>
    refine ⟨nofun, ?_⟩
    rintro ⟨before, later, hpast, -⟩
    exact absurd hpast.symm (append_ne_nil_of_right_ne_nil _ (cons_ne_nil _ _))
  | append_singleton past x ih =>
    rw [latest?_append, isLatest_append, ← ih]
    obtain ⟨now, call⟩ := x
    cases call with
    | set key' hash data =>
      by_cases hkey : key' = key
      · subst hkey
        simp only [keptAfter, Call.Ends, if_true, some.injEq, Prod.mk.injEq, Call.set.injEq, not_true, and_false,
          or_false]
        constructor
        · rintro rfl
          exact ⟨rfl, trivial, rfl, rfl⟩
        · rintro ⟨rfl, -, rfl, rfl⟩
          rfl
      · simp [keptAfter, Call.Ends, hkey]
    | get key' hash => simp [keptAfter, Call.Ends]
    | invalidate key' =>
      by_cases hkey : key' = key <;> simp [keptAfter, Call.Ends, hkey]
    | clear => simp [keptAfter, Call.Ends]

/-! ### Expiry -/

lemma isExpired_mono {c : Cache} {now now' : Instant} (h : now.nanos ≤ now'.nanos) (he : c.isExpired now e) :
    c.isExpired now' e = true := by
  rw [isExpired, Bool.and_eq_true, decide_eq_true_eq, decide_eq_true_eq] at he ⊢
  refine ⟨he.1, ?_⟩
  simp only [Instant.since, Duration.clamp] at he ⊢
  omega

/-! ### A cache in its directory -/

/-- Whether an enabled cache has its directory at a place, which does not hold the working
directory. -/
structure Stands (c : Cache) (d : Disk) (p : Place) : Prop where
  isEnabled : c.isEnabled = true
  isTree : d.IsTree
  place_eq : (d.place c.directory).toOption = some p
  isDirectory : d.at? p = some .directory
  isOutside : ¬ p <+: d.cwd

def entryPlace (p : Place) (key : String) : Place := p ++ [entryName key]

lemma entryPlace_inj {p : Place} {key key' : String} (h : entryPlace p key = entryPlace p key') :
    Blake3.hash (Text.toBytes key) = Blake3.hash (Text.toBytes key') := by
  have hnames : entryName key = entryName key' := singleton_inj.1 (append_cancel_left h)
  exact (String.append_left_inj entryExtension).1 hnames

namespace Stands

variable {c : Cache} {d d' : Disk} {p : Place} (h : c.Stands d p)
include h

lemma place_entryPath (key : String) : d.place (c.entryPath key) = .ok (entryPlace p key) :=
  h.isTree.place_join (eq_ok_of_toOption h.place_eq) h.isDirectory (isName_entryName key)

lemma of_changesFile {q : Place} (hd : ChangesFile q d d') : c.Stands d' p where
  isEnabled := h.isEnabled
  isTree := hd.isTree
  place_eq := (hd.place_eq h.isTree _).trans h.place_eq
  isDirectory := (hd.directory_iff p).2 h.isDirectory
  isOutside := hd.cwd ▸ h.isOutside

variable {now : Instant} {key : String}

lemma entry?_of_none (hat : d.at? (entryPlace p key) = none) : c.entry? key d = none := by
  unfold entry?
  rw [toOption_read, h.place_entryPath]
  simp [Except.toOption, contentAt?, hat]

lemma entry?_of_file {e : CacheEntry} (he : e.IsFitting) (hat : d.at? (entryPlace p key) = some (.file e.encode)) :
    c.entry? key d = some { e with time := ⟨e.time.nanos, 0⟩ } := by
  unfold entry?
  rw [toOption_read_eq_some_iff.2 ⟨_, by rw [h.place_entryPath]; rfl, hat⟩, bind_some]
  exact CacheEntry.decode?_encode he.hash he.data he.time

lemma exists_set (hat : d.at? (entryPlace p key) ≠ some .directory) (now : Instant) (hash : String) (data : Bytes) :
    ∃ d', c.set now key hash data d = .ok d' ∧ ChangesFile (entryPlace p key) d d' ∧
      d'.at? (entryPlace p key) = some (.file (CacheEntry.encode { hash, time := now, data })) := by
  have hwrite : ∃ d', d.write (c.entryPath key) (CacheEntry.encode { hash, time := now, data }) = .ok d' := by
    have hparent : d.at? (entryPlace p key).dropLast = some .directory := by
      rw [entryPlace, dropLast_concat]
      exact h.isDirectory
    rw [Disk.write, h.place_entryPath]
    rcases hnode : d.at? (entryPlace p key) with _ | content | _
    · simp only [hnode, hparent]
      exact ⟨_, rfl⟩
    · simp only [hnode]
      exact ⟨_, rfl⟩
    · exact absurd hnode hat
  obtain ⟨d', hd'⟩ := hwrite
  obtain ⟨q, hq, hchanges, hfile⟩ := h.isTree.changesFile_write hd'
  rw [h.place_entryPath] at hq
  cases hq
  refine ⟨d', ?_, hchanges, hfile⟩
  rw [set, h.isEnabled, hd']
  rfl

lemma exists_invalidate (hat : d.at? (entryPlace p key) ≠ some .directory) :
    ∃ d', c.invalidate key d = .ok d' ∧ ChangesFile (entryPlace p key) d d' ∧ d'.at? (entryPlace p key) = none := by
  rcases hnode : d.at? (entryPlace p key) with _ | content | _
  · refine ⟨d, ?_, h.isTree.changesFile_refl _, hnode⟩
    have hremove : d.remove (c.entryPath key) = .error ⟨"remove", c.entryPath key, .noSuchFile⟩ := by
      simp only [remove, find, h.place_entryPath, bind, Except.bind, hnode]
    rw [invalidate, h.isEnabled, hremove]
    rfl
  · obtain ⟨q, d', hq, hremove, hchanges, hgone⟩ := h.isTree.changesFile_remove
      (toOption_read_eq_some_iff.2 ⟨_, by rw [h.place_entryPath]; rfl, hnode⟩)
    rw [h.place_entryPath] at hq
    cases hq
    refine ⟨d', ?_, hchanges, hgone⟩
    rw [invalidate, h.isEnabled, hremove]
    rfl
  · exact absurd hnode hat

lemma get_of_none (hat : d.at? (entryPlace p key) = none) (now : Instant) (hash : String) :
    c.get now key hash d = (none, d) := by
  rw [get, h.isEnabled, h.entry?_of_none hat]
  rfl

lemma get_of_file {e : CacheEntry} (he : e.IsFitting)
    (hat : d.at? (entryPlace p key) = some (.file e.encode)) (now : Instant) (hash : String) :
    (c.get now key hash d).1 = (if e.hash = hash ∧ c.isExpired now e = false then some e.data else none) ∧
      ((c.get now key hash d).2 = d ∨ c.isExpired now e ∧
        ChangesFile (entryPlace p key) d (c.get now key hash d).2 ∧
        (c.get now key hash d).2.at? (entryPlace p key) = none) := by
  have hread : (d.read (c.entryPath key)).toOption = some e.encode :=
    toOption_read_eq_some_iff.2 ⟨_, by rw [h.place_entryPath]; rfl, hat⟩
  obtain ⟨q, d', hq, hremove, hchanges, hgone⟩ := h.isTree.changesFile_remove hread
  rw [h.place_entryPath] at hq
  cases hq
  -- an entry expires by its point in time, wherever it was stored
  have hexpired : c.isExpired now { e with time := ⟨e.time.nanos, 0⟩ } = c.isExpired now e := rfl
  simp only [get, h.isEnabled, h.entry?_of_file he hat, hexpired, hremove]
  by_cases hhash : e.hash = hash
  · by_cases hlife : c.isExpired now e = true
    · simp [hhash, hlife, Except.toOption, hchanges, hgone]
    · simp [hhash, hlife]
  · simp [hhash]

end Stands

/-! ### Until a cache is cleared -/

/-- How the file of a key shows what was stored for it: it holds the latest entry, unless a look-up
found that expired and took it away. -/
inductive Shows (c : Cache) (p : Place) (past : History) (d : Disk) (key : String) : Prop
  | absent (hlatest : latest? past key = none) (hat : d.at? (entryPlace p key) = none)
  | present (e : CacheEntry) (hlatest : latest? past key = some e) (he : e.IsFitting)
      (hat : d.at? (entryPlace p key) = some (.file e.encode))
  | expired (e : CacheEntry) (hlatest : latest? past key = some e) (x : Instant × Call) (hx : x ∈ past)
      (hexpired : c.isExpired x.1 e = true) (hat : d.at? (entryPlace p key) = none)

section

variable {keys : Set String} {now : Instant} {call : Call}

variable {c : Cache} {p : Place} {past : History} {d d' : Disk} {key : String}

lemma Shows.at?_ne_directory (h : c.Shows p past d key) : d.at? (entryPlace p key) ≠ some .directory := by
  cases h with
  | absent _ hat | present _ _ _ hat | expired _ _ _ _ _ hat => simp [hat]

lemma Shows.of_eq (h : c.Shows p past d key) {x : Instant × Call}
    (hlatest : latest? (past ++ [x]) key = latest? past key)
    (hat : d'.at? (entryPlace p key) = d.at? (entryPlace p key)) : c.Shows p (past ++ [x]) d' key := by
  cases h with
  | absent hnone hat' => exact .absent (hlatest.trans hnone) (hat.trans hat')
  | present e he hfits hat' => exact .present e (hlatest.trans he) hfits (hat.trans hat')
  | expired e he y hy hexpired hat' =>
    exact .expired e (hlatest.trans he) y (mem_append_left _ hy) hexpired (hat.trans hat')

lemma latest?_append_of_ne (h : ∀ key', call.key? = some key' → key' ≠ key) (hclear : call ≠ .clear) :
    latest? (past ++ [(now, call)]) key = latest? past key := by
  rw [latest?_append]
  cases call with
  | set key' | invalidate key' => exact if_neg (h key' rfl)
  | get key' hash => rfl
  | clear => contradiction

lemma Shows.append_self (h : c.Shows p past d key) (hd : c.Stands d p) (hfits : call.IsFitting keys now)
    (hkey : call.key? = some key) : ChangesFile (entryPlace p key) d (call.apply c now d) ∧
      c.Shows p (past ++ [(now, call)]) (call.apply c now d) key := by
  cases call with
  | set key' hash data =>
    obtain rfl : key' = key := some.inj hkey
    obtain ⟨d', hset, hchanges, hfile⟩ := hd.exists_set h.at?_ne_directory now hash data
    have happly : (Call.set key' hash data).apply c now d = d' := by
      rw [Call.apply, hset]
      rfl
    rw [happly]
    exact ⟨hchanges, .present _ ((latest?_append ..).trans (if_pos rfl)) hfits.2 hfile⟩
  | invalidate key' =>
    obtain rfl : key' = key := some.inj hkey
    obtain ⟨d', hinvalidate, hchanges, hgone⟩ := hd.exists_invalidate h.at?_ne_directory
    have happly : (Call.invalidate key').apply c now d = d' := by
      rw [Call.apply, hinvalidate]
      rfl
    rw [happly]
    exact ⟨hchanges, .absent ((latest?_append ..).trans (if_pos rfl)) hgone⟩
  | clear => contradiction
  | get key' hash =>
    obtain rfl : key' = key := some.inj hkey
    have hlatest : latest? (past ++ [(now, .get key' hash)]) key' = latest? past key' := latest?_append ..
    show ChangesFile _ d (c.get now key' hash d).2 ∧ c.Shows p _ (c.get now key' hash d).2 key'
    have hsame (hdisk : (c.get now key' hash d).2 = d) :
        ChangesFile (entryPlace p key') d (c.get now key' hash d).2 ∧
          c.Shows p (past ++ [(now, .get key' hash)]) (c.get now key' hash d).2 key' := by
      rw [hdisk]
      exact ⟨hd.isTree.changesFile_refl _, h.of_eq hlatest rfl⟩
    cases h with
    | absent _ hat | expired _ _ _ _ _ hat => exact hsame (by rw [hd.get_of_none hat])
    | present e he hentry hat =>
      rcases (hd.get_of_file hentry hat now hash).2 with hdisk | ⟨hexpired, hchanges, hgone⟩
      · exact hsame hdisk
      · exact ⟨hchanges, .expired e (hlatest.trans he) _ mem_concat_self hexpired hgone⟩

lemma Shows.append (hd : c.Stands d p) (hkeys : Set.InjOn (fun key => Blake3.hash (Text.toBytes key)) keys)
    (h : ∀ key ∈ keys, c.Shows p past d key) (hfits : call.IsFitting keys now) (hclear : call ≠ .clear) :
    c.Stands (call.apply c now d) p ∧ ∀ key ∈ keys, c.Shows p (past ++ [(now, call)]) (call.apply c now d) key := by
  obtain ⟨key', hkey', hmem⟩ : ∃ key', call.key? = some key' ∧ key' ∈ keys := by
    cases call with
    | set key' hash data => exact ⟨key', rfl, hfits.1⟩
    | get key' | invalidate key' => exact ⟨key', rfl, hfits⟩
    | clear => contradiction
  obtain ⟨hchanges, hself⟩ := (h key' hmem).append_self hd hfits hkey'
  refine ⟨hd.of_changesFile hchanges, fun key hkey => ?_⟩
  by_cases heq : key' = key
  · exact heq ▸ hself
  · -- the only use of the hash function: other keys have other files
    have hplace : entryPlace p key ≠ entryPlace p key' := fun hplace => heq (hkeys hmem hkey (entryPlace_inj hplace).symm)
    refine (h key hkey).of_eq (latest?_append_of_ne (fun k hk => ?_) hclear) (hchanges.at?_eq _ hplace)
    obtain rfl := some.inj (hk.symm.trans hkey')
    exact heq

/-- Whether a cache stands in its directory, and none of its files do. -/
structure IsEmpty (c : Cache) (d : Disk) (p : Place) : Prop extends c.Stands d p where
  isFree : ∀ key, d.at? (entryPlace p key) = none

lemma IsEmpty.shows_after (h : c.IsEmpty d p) (hkeys : Set.InjOn (fun key => Blake3.hash (Text.toBytes key)) keys)
    (hpast : ∀ x ∈ past, x.2.IsFitting keys x.1) (hclear : ∀ x ∈ past, x.2 ≠ .clear) :
    c.Stands (c.after past d) p ∧ ∀ key ∈ keys, c.Shows p past (c.after past d) key := by
  induction past using reverseRecOn with
  | nil => exact ⟨h.toStands, fun key _ => .absent rfl (h.isFree key)⟩
  | append_singleton past x ih =>
    rw [forall_mem_append, forall_mem_singleton] at hpast hclear
    obtain ⟨hd, hshows⟩ := ih hpast.1 hclear.1
    rw [after_append]
    exact Shows.append hd hkeys hshows hpast.2 hclear.2

/-! ### After a cache was cleared -/

/-- Whether the directory of a cache was taken away. -/
def IsGone (c : Cache) (d : Disk) (p : Place) : Prop := ∃ d', c.Stands d' p ∧ d = d'.erase p

lemma Stands.isGone_clear (h : c.Stands d p) : c.IsGone (c.clear d) p := by
  refine ⟨d, h, ?_⟩
  have hfind : d.find c.directory = .ok (p, .directory) := by
    simp only [find, eq_ok_of_toOption h.place_eq, bind, Except.bind, h.isDirectory]
  rw [clear, if_pos h.isEnabled, Disk.removeAll, hfind]

namespace IsGone

variable (h : c.IsGone d p)
include h

lemma isEnabled : c.isEnabled := by
  obtain ⟨d', hd', -⟩ := h
  exact hd'.isEnabled

lemma at?_eq_none {q : Place} (hq : p <+: q) : d.at? q = none := by
  obtain ⟨d', hd', rfl⟩ := h
  have hne : p ≠ [] := by
    rintro rfl
    exact hd'.isOutside nil_prefix
  rw [at?_erase d' hne, if_pos hq]

lemma place_cases {path : String} {q : Place} (hpath : ∀ d', c.Stands d' p → d'.place path = .ok q) :
    d.place path = .ok q ∨ d.place path = .error .noSuchFile := by
  obtain ⟨d', hd', rfl⟩ := h
  rw [← hpath d' hd']
  exact (isPart_erase d' p).place_eq_or hd'.isTree path

lemma find_eq {path : String} {q : Place} (hpath : ∀ d', c.Stands d' p → d'.place path = .ok q)
    (hq : p <+: q) : d.find path = .error .noSuchFile := by
  rcases h.place_cases hpath with hplace | hplace
  · simp only [find, hplace, bind, Except.bind, h.at?_eq_none hq]
  · simp only [find, hplace, bind, Except.bind]

lemma find_entryPath (key : String) : d.find (c.entryPath key) = .error .noSuchFile :=
  h.find_eq (fun _ hd => hd.place_entryPath key) (prefix_append _ _)

lemma exists_set (now : Instant) (key hash : String) (data : Bytes) : ∃ f, c.set now key hash data d = .error f := by
  have hwrite (content : Bytes) :
      d.write (c.entryPath key) content = .error ⟨"open", c.entryPath key, .noSuchFile⟩ := by
    rcases h.place_cases (fun _ hd => hd.place_entryPath key) with hplace | hplace
    · have hentry : d.at? (entryPlace p key) = none := h.at?_eq_none (prefix_append _ _)
      have hparent : d.at? (entryPlace p key).dropLast = none := by
        rw [entryPlace, dropLast_concat]
        exact h.at?_eq_none prefix_rfl
      simp only [Disk.write, hplace, hentry, hparent]
    · simp only [Disk.write, hplace]
  rw [set, h.isEnabled, hwrite]
  exact ⟨_, rfl⟩

lemma get_eq (now : Instant) (key hash : String) : c.get now key hash d = (none, d) := by
  have hentry : c.entry? key d = none := by
    unfold entry?
    rw [Disk.read, h.find_entryPath key]
    rfl
  rw [get, h.isEnabled, hentry]
  rfl

lemma invalidate_eq (key : String) : c.invalidate key d = .ok d := by
  rw [invalidate, h.isEnabled, remove, h.find_entryPath key]
  rfl

lemma clear_eq : c.clear d = d := by
  have hfind : d.find c.directory = .error .noSuchFile :=
    h.find_eq (fun _ hd => eq_ok_of_toOption hd.place_eq) prefix_rfl
  rw [clear, if_pos h.isEnabled, Disk.removeAll, hfind]

lemma apply_eq (now : Instant) (call : Call) : call.apply c now d = d := by
  cases call with
  | set key hash data =>
    obtain ⟨f, hset⟩ := h.exists_set now key hash data
    rw [Call.apply, hset]
    rfl
  | get key hash => rw [Call.apply, h.get_eq]
  | invalidate key =>
    rw [Call.apply, h.invalidate_eq]
    rfl
  | clear => exact h.clear_eq

end IsGone

lemma IsEmpty.isGone_after (h : c.IsEmpty d p) (hkeys : Set.InjOn (fun key => Blake3.hash (Text.toBytes key)) keys)
    (hpast : ∀ x ∈ past, x.2.IsFitting keys x.1) (hclear : ∃ x ∈ past, x.2 = .clear) : c.IsGone (c.after past d) p := by
  induction past using reverseRecOn with
  | nil =>
    obtain ⟨x, hx, -⟩ := hclear
    exact absurd hx not_mem_nil
  | append_singleton past x ih =>
    rw [forall_mem_append, forall_mem_singleton] at hpast
    rw [after_append]
    by_cases hbefore : ∃ x ∈ past, x.2 = .clear
    · have hgone := ih hpast.1 hbefore
      rwa [hgone.apply_eq]
    · -- the directory stands until this call
      obtain ⟨y, hy, hyclear⟩ := hclear
      rcases mem_append.1 hy with hy | hy
      · exact absurd ⟨y, hy, hyclear⟩ hbefore
      · obtain rfl := mem_singleton.1 hy
        have hstands := (h.shows_after hkeys hpast.1 fun x hx hxclear => hbefore ⟨x, hx, hxclear⟩).1
        rw [hyclear]
        exact hstands.isGone_clear

/-! ### What calls answer -/

lemma Shows.get_eq_some_iff (h : c.Shows p past d key) (hd : c.Stands d p) (hnow : ∀ x ∈ past, x.1.nanos ≤ now.nanos)
    {hash : String} {data : Bytes} : (c.get now key hash d).1 = some data ↔
      ∃ time, IsLatest past key { hash, time, data } ∧ c.isExpired now { hash, time, data } = false := by
  simp only [← latest?_eq_some_iff]
  cases h with
  | absent hlatest hat => simp [hd.get_of_none hat, hlatest]
  | expired e hlatest x hx hexpired hat =>
    -- the file is gone, and by now the entry would not be given from it either
    have hexpired := isExpired_mono (hnow x hx) hexpired
    rw [hd.get_of_none hat, hlatest]
    refine ⟨nofun, ?_⟩
    rintro ⟨time, he, hlife⟩
    cases he
    rw [hexpired] at hlife
    contradiction
  | present e hlatest he hat =>
    rw [(hd.get_of_file he hat now hash).1, hlatest]
    constructor
    · intro hget
      obtain ⟨⟨rfl, hlife⟩, hdata⟩ := ite_none_right_eq_some.1 hget
      cases hdata
      exact ⟨e.time, rfl, hlife⟩
    · rintro ⟨time, he, hlife⟩
      cases he
      exact if_pos ⟨rfl, hlife⟩

/-- What the calls of a cache answer after any others, at a time that is not before theirs. Until
the cache is cleared, a store succeeds and a look-up finds exactly the data of the latest entry of
its key, if that has its hash, was not invalidated since and has not expired. Then nothing is stored
or found. Invalidating succeeds always. -/
theorem answers_after (h : c.IsEmpty d p) {keys : Set String}
    (hkeys : Set.InjOn (fun key => Blake3.hash (Text.toBytes key)) keys)
    (hpast : ∀ x ∈ past, x.2.IsFitting keys x.1) {now : Instant} (hnow : ∀ x ∈ past, x.1.nanos ≤ now.nanos)
    (hkey : key ∈ keys) (hash : String) (data : Bytes) :
    ((∃ d', c.set now key hash data (c.after past d) = .ok d') ↔ ∀ x ∈ past, x.2 ≠ .clear) ∧
    ((c.get now key hash (c.after past d)).1 = some data ↔ (∀ x ∈ past, x.2 ≠ .clear) ∧
      ∃ time, IsLatest past key { hash, time, data } ∧ c.isExpired now { hash, time, data } = false) ∧
    ∃ d', c.invalidate key (c.after past d) = .ok d' := by
  by_cases hclear : ∀ x ∈ past, x.2 ≠ .clear
  · obtain ⟨hd, hshows⟩ := h.shows_after hkeys hpast hclear
    have hentry := hshows key hkey
    obtain ⟨stored, hset, -⟩ := hd.exists_set hentry.at?_ne_directory now hash data
    obtain ⟨left, hinvalidate, -⟩ := hd.exists_invalidate hentry.at?_ne_directory
    refine ⟨iff_of_true ⟨stored, hset⟩ hclear, ?_, left, hinvalidate⟩
    rw [and_iff_right hclear]
    exact hentry.get_eq_some_iff hd hnow
  · have hgone : c.IsGone (c.after past d) p := by
      refine h.isGone_after hkeys hpast ?_
      simpa using hclear
    obtain ⟨f, hset⟩ := hgone.exists_set now key hash data
    refine ⟨iff_of_false ?_ hclear, iff_of_false ?_ fun hfound => hclear hfound.1, _, hgone.invalidate_eq key⟩
    · rintro ⟨d', hd'⟩
      rw [hset] at hd'
      contradiction
    · rw [hgone.get_eq]
      nofun

end

/-! ### A cleared cache -/

def workCache : Cache := { directory := "cache", lifetime := Duration.ofHours 24, isEnabled := true }

def workDisk : Disk where
  cwd := ["work"]
  nodes := [(["work", "cache"], .directory), (["work"], .directory)]

lemma makeDirectories_workDisk : (Disk.empty ["work"]).makeDirectories "cache" = .ok workDisk := by rfl

lemma isEmpty_workDisk : workCache.IsEmpty workDisk ["work", "cache"] where
  isEnabled := rfl
  isTree := ((isTree_empty ["work"]).of_makeDirectories makeDirectories_workDisk).1
  place_eq := rfl
  isDirectory := rfl
  isOutside := by decide
  isFree key := by simp [entryPlace, at?, workDisk, lookup_cons]

/-- An entry that is replaced, and was asked for under its new hash before. -/
def replacing : History :=
  [(⟨0, 0⟩, .set "a" "old" [1]), (⟨1, 0⟩, .get "a" "new"), (⟨2, 0⟩, .set "a" "new" [2])]

lemma isFitting_replacing : ∀ x ∈ replacing, x.2.IsFitting {"a"} x.1 := by
  have hfits {hash : String} {time : Instant} {data : Bytes} (hhash : IsFieldName hash)
      (hdata : data.length < 0x100000000) (htime : time.IsPackable) :
      Call.IsFitting {"a"} time (.set "a" hash data) := ⟨rfl, hhash.isShortText, hdata, htime⟩
  simp only [replacing, forall_mem_cons]
  exact ⟨hfits (by decide) (by decide) (by decide), rfl, hfits (by decide) (by decide) (by decide), nofun⟩

lemma isFitting_cleared : ∀ x ∈ replacing ++ [(⟨3, 0⟩, .clear)], x.2.IsFitting {"a"} x.1 := by
  rw [forall_mem_append, forall_mem_singleton]
  exact ⟨isFitting_replacing, trivial⟩

theorem not_stored_after_clear :
    (¬ ∃ d', workCache.set ⟨4, 0⟩ "a" "new" [3] (workCache.after (replacing ++ [(⟨3, 0⟩, .clear)]) workDisk) = .ok d') ∧
      (workCache.get ⟨5, 0⟩ "a" "new"
        (workCache.after (replacing ++ [(⟨3, 0⟩, .clear)] ++ [(⟨4, 0⟩, .set "a" "new" [3])]) workDisk)).1 = none := by
  have hgone := isEmpty_workDisk.isGone_after (Set.injOn_singleton _ _) isFitting_cleared
    ⟨_, List.mem_concat_self, rfl⟩
  refine ⟨?_, ?_⟩
  · obtain ⟨f, hset⟩ := hgone.exists_set ⟨4, 0⟩ "a" "new" [3]
    rintro ⟨d', hd'⟩
    cases hset.symm.trans hd'
  · rw [after_append, hgone.apply_eq, hgone.get_eq]

/-- Until the cache is cleared its entry is found, and after that nothing can be stored. -/
theorem answers_after_replacing :
    (workCache.IsEmpty workDisk ["work", "cache"] ∧ ∀ x ∈ replacing ++ [(⟨3, 0⟩, .clear)], x.2.IsFitting {"a"} x.1) ∧
    (workCache.get ⟨3, 0⟩ "a" "new" (workCache.after replacing workDisk)).1 = some [2] ∧
    ¬ ∃ d', workCache.set ⟨4, 0⟩ "a" "new" [3] (workCache.after (replacing ++ [(⟨3, 0⟩, .clear)]) workDisk) =
      .ok d' := by
  refine ⟨⟨isEmpty_workDisk, isFitting_cleared⟩, ?_, ?_⟩
  · refine (answers_after isEmpty_workDisk (Set.injOn_singleton _ _) isFitting_replacing (by decide)
      (Set.mem_singleton _) "new" [2]).2.1.2 ⟨by decide, ⟨2, 0⟩, ?_, by decide⟩
    exact ⟨[(⟨0, 0⟩, .set "a" "old" [1]), (⟨1, 0⟩, .get "a" "new")], [], rfl, List.forall_mem_nil _⟩
  · rw [(answers_after isEmpty_workDisk (Set.injOn_singleton _ _) isFitting_cleared (by decide)
      (Set.mem_singleton _) "new" [3]).1]
    decide

/-! ### Lifetimes

Up to 2562047 hours an entry is found exactly as long as it is not older (`keepsFor_of_lt`). A
greater number wraps into a shorter time, or into one that never ends (`not_keepsFor_ofHours`). -/

open Disk Pack

/-- Whether a stored entry is found until it is older than a limit, and is removed by a look-up
after that. -/
def KeepsFor (c : Cache) (limit : Int) : Prop :=
  ∀ (d : Disk) (key : String) (e : CacheEntry) (now : Instant), d.IsTree → c.entry? key d = some e →
    if now.nanos - e.time.nanos ≤ limit then c.get now key e.hash d = (some e.data, d)
    else (c.get now key e.hash d).1 = none ∧ c.entry? key (c.get now key e.hash d).2 = none

variable {c : Cache} {d : Disk} {key : String} {e : CacheEntry} {now : Instant} {hours : Int}

lemma get_eq (hc : c.isEnabled) (he : c.entry? key d = some e) : c.get now key e.hash d =
    if c.isExpired now e then (none, (d.remove (c.entryPath key)).toOption.getD d) else (some e.data, d) := by
  simp [get, hc, he]

lemma entry?_remove (hd : d.IsTree) (he : c.entry? key d = some e) :
    c.entry? key ((d.remove (c.entryPath key)).toOption.getD d) = none := by
  obtain ⟨bytes, hbytes, -⟩ := Option.bind_eq_some_iff.1 he
  obtain ⟨p, d', hplace, hremove, hchanges, hgone⟩ := hd.changesFile_remove hbytes
  rw [hremove, entry?, toOption_read]
  show (((d'.place _).toOption.bind d'.contentAt?).bind _) = none
  rw [hchanges.place_eq hd, hplace, Option.bind_some, contentAt?, hgone]
  rfl

lemma isExpired_iff : c.isExpired now e = true ↔ 0 < c.lifetime.nanos ∧ c.lifetime.nanos < Duration.maxNanos ∧
    c.lifetime.nanos < now.nanos - e.time.nanos := by
  rw [isExpired, Bool.and_eq_true, decide_eq_true_eq, decide_eq_true_eq]
  simp only [Instant.since, Duration.clamp]
  omega

lemma keepsFor_of_lt (hc : c.isEnabled) (hpos : 0 < c.lifetime.nanos) (hlt : c.lifetime.nanos < Duration.maxNanos) :
    c.KeepsFor c.lifetime.nanos := by
  intro d key e now hd he
  rw [get_eq hc he]
  by_cases hage : now.nanos - e.time.nanos ≤ c.lifetime.nanos
  · rw [if_pos hage, if_neg (by rw [isExpired_iff]; omega)]
  · rw [if_neg hage, if_pos (isExpired_iff.2 ⟨hpos, hlt, not_le.1 hage⟩)]
    exact ⟨rfl, entry?_remove hd he⟩

lemma nanos_ofHours (hpos : 0 < hours) (h : hours ≤ 2562047) :
    (Duration.ofHours hours).nanos = hours * 3600000000000 := by
  simp only [Duration.ofHours, Word.signed, Word.span, Int.bmod, Nat.pow_eq]
  omega

lemma nanos_ofHours_lt (h : 2562047 < hours) : (Duration.ofHours hours).nanos + 1 < hours * 3600000000000 ∧
    (Duration.ofHours hours).nanos < Duration.maxNanos := by
  simp only [Duration.ofHours, Word.signed, Word.span, Int.bmod, Nat.pow_eq, Duration.maxNanos]
  omega

def heldFor (hours : Int) : Cache := { workCache with lifetime := Duration.ofHours hours }

lemma exists_stored (hours : Int) :
    ∃ d : Disk, d.IsTree ∧ entry? (heldFor hours) "a" d = some { hash := "h", time := ⟨0, 0⟩, data := [1] } := by
  have hstands : (heldFor hours).Stands workDisk ["work", "cache"] :=
    ⟨rfl, isEmpty_workDisk.isTree, isEmpty_workDisk.place_eq, rfl, isEmpty_workDisk.isOutside⟩
  have hat : workDisk.at? (entryPlace ["work", "cache"] "a") ≠ some .directory := by
    rw [isEmpty_workDisk.isFree]
    nofun
  obtain ⟨d, -, hchanges, hfile⟩ := hstands.exists_set hat ⟨0, 0⟩ "h" [1]
  have hfits : CacheEntry.IsFitting { hash := "h", time := ⟨0, 0⟩, data := [1] } :=
    ⟨IsFieldName.isShortText (by decide), by decide, by decide⟩
  exact ⟨d, hchanges.isTree, (hstands.of_changesFile hchanges).entry?_of_file hfits hfile⟩

lemma not_keepsFor_ofHours (h : 2562047 < hours) : ¬ (heldFor hours).KeepsFor (hours * 3600000000000) := by
  intro hkeeps
  obtain ⟨hless, hmax⟩ := nanos_ofHours_lt h
  obtain ⟨d, hd, he⟩ := exists_stored hours
  have hnanos : (heldFor hours).lifetime.nanos = (Duration.ofHours hours).nanos := rfl
  by_cases hpos : 0 < (Duration.ofHours hours).nanos
  · have hget := hkeeps d "a" _ ⟨(Duration.ofHours hours).nanos + 1, 0⟩ hd he
    rw [get_eq rfl he, if_pos (by simp only; omega), if_pos (isExpired_iff.2 (by simp only [hnanos]; omega))] at hget
    cases congrArg Prod.fst hget
  · have hget := hkeeps d "a" _ ⟨hours * 3600000000000 + 1, 0⟩ hd he
    rw [get_eq rfl he, if_neg (by simp only; omega), if_neg (by rw [isExpired_iff]; omega)] at hget
    cases hget.1

/-- Entries live for the hours that every cache is opened with, exactly if a machine word holds them
as nanoseconds. -/
theorem keepsFor_hours_iff (hours : Int) (hpos : 0 < hours) :
    (∀ directory d c d', create directory hours d = .ok (c, d') → c.KeepsFor (hours * 3600000000000)) ↔
      hours ≤ 2562047 := by
  constructor
  · intro hall
    by_contra hlong
    refine not_keepsFor_ofHours (not_le.1 hlong) (hall "cache" (Disk.empty ["work"]) _ workDisk ?_)
    rw [create, makeDirectories_workDisk]
    rfl
  · intro hshort directory d c d' hcreate
    obtain rfl : c = { directory, lifetime := Duration.ofHours hours, isEnabled := true } := by
      rw [create] at hcreate
      rcases hmake : Failure.ofIo (d.makeDirectories directory) with f | d'' <;> rw [hmake] at hcreate <;> cases hcreate
      rfl
    have hnanos := nanos_ofHours hpos hshort
    rw [← hnanos]
    refine keepsFor_of_lt rfl ?_ ?_
    · simp only [hnanos]
      omega
    · simp only [hnanos, Duration.maxNanos, Word.span, Nat.pow_eq]
      omega

theorem keepsFor_hours_day : 0 < (24 : Int) ∧ ∀ directory d c d', create directory 24 d = .ok (c, d') →
    c.KeepsFor (24 * 3600000000000) :=
  ⟨by decide, (keepsFor_hours_iff 24 (by decide)).2 (by decide)⟩

/-- With a lifetime of 5124096 hours, which wraps to less than half an hour, an entry is gone after
one hour. -/
theorem get_heldFor_wrapped : ∃ d : Disk, d.IsTree ∧
    entry? (heldFor 5124096) "a" d = some { hash := "h", time := ⟨0, 0⟩, data := [1] } ∧
    ((heldFor 5124096).get ⟨3600000000000, 0⟩ "a" "h" d).1 = none := by
  obtain ⟨d, hd, he⟩ := exists_stored 5124096
  refine ⟨d, hd, he, ?_⟩
  rw [get_eq rfl he, if_pos (isExpired_iff.2 (by decide))]

end Cache

end BytecodeAudit
