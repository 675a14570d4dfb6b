import BytecodeAudit.Digest
import BytecodeAudit.Failure
import BytecodeAudit.Pack.Basic
import BytecodeAudit.Time

/-!
# The scan cache

A directory with one file for each key. A look-up hits when the entry of its key was stored under
the same hash and has not outlived the cache's lifetime; an entry that has is removed. Files that
are no entries never hit, and stay. The lifetime is a machine word of nanoseconds. One that is not
positive never ends.
-/

namespace BytecodeAudit

/-! ### Entries

An entry is written as a packed record; its time stands under a tag of its own. -/

def Instant.packTag : UInt8 := 0xff

/-- The packed form, in four bytes for whole seconds of the near future, in eight for a word of
nanoseconds and seconds, or in twelve. -/
def Instant.toPack (t : Instant) : Pack :=
  let seconds := Pack.complement 64 (Int.fdiv t.nanos nanosPerSecond)
  let nanos := (Int.fmod t.nanos nanosPerSecond).toNat
  let word := nanos * Word.span 34 + seconds
  .tagged packTag
    (if seconds < Word.span 34 then Pack.bigEndian (if word < Word.span 32 then 4 else 8) word
    else Pack.bigEndian 4 nanos ++ Pack.bigEndian 8 seconds)

def Instant.ofPack : Pack → Option Instant
  | .nil => some unset
  | .tagged tag bs =>
    let at? (seconds : Int) (nanos : Nat) : Option Instant := some ⟨seconds * nanosPerSecond + nanos, 0⟩
    if tag != packTag then none
    else
      match bs.length with
      | 4 => at? (Pack.ofBigEndian bs) 0
      | 8 => at? (Pack.ofBigEndian bs % Word.span 34 : Nat) (Pack.ofBigEndian bs / Word.span 34)
      | 12 => at? (Pack.ofComplement 64 (Pack.ofBigEndian (bs.drop 4))) (Pack.ofBigEndian (bs.take 4))
      | _ => none
  | _ => none

structure CacheEntry where
  hash : String := ""
  time : Instant := Instant.unset
  data : List UInt8 := []
deriving DecidableEq, Repr, Inhabited

namespace CacheEntry

def packFields : List String := ["hash", "timestamp", "data"]

def toPack (e : CacheEntry) : Pack :=
  .record [("hash", some (.text e.hash)), ("timestamp", some e.time.toPack), ("data", some (.blob e.data))]

def ofPack (p : Pack) : Option CacheEntry :=
  Pack.decodeRecord packFields
    (fun e field v =>
      match field with
      | "hash" => v.decodeText.map fun s => { e with hash := s }
      | "timestamp" => (Instant.ofPack v).map fun t => { e with time := t }
      | "data" => v.decodeBytes.map fun bs => { e with data := bs }
      | _ => some e)
    {} {} p

def encode (e : CacheEntry) : List UInt8 := e.toPack.write

def decode? (bs : List UInt8) : Option CacheEntry := do
  let (p, _) ← Pack.read? bs
  ofPack p

end CacheEntry

/-! ### Caches -/

structure Cache where
  directory : String := ""
  lifetime : Duration := ⟨0⟩
  isEnabled : Bool := false
deriving DecidableEq, Repr

/-- A number of hours in a machine word of nanoseconds, which wraps. -/
def Duration.ofHours (n : Int) : Duration := ⟨Word.signed 64 (n * 3600000000000)⟩

namespace Cache

def disabled : Cache := {}

def create (directory : String) (hours : Int) (d : Disk) : Except Failure (Cache × Disk) := do
  let d ← Failure.ofIo (d.makeDirectories directory)
  .ok ({ directory, lifetime := Duration.ofHours hours, isEnabled := true }, d)

def entryExtension : String := ".mp"

/-- The file of a key. Its name is a hash, so that every key is safe. -/
def entryPath (c : Cache) (key : String) : String :=
  Path.join [c.directory, Digest.Blake3.hash (Text.toBytes key) ++ entryExtension]

def isExpired (c : Cache) (now : Instant) (e : CacheEntry) : Bool :=
  0 < c.lifetime.nanos && c.lifetime.nanos < (now.since e.time).nanos

def entry? (c : Cache) (key : String) (d : Disk) : Option CacheEntry :=
  (d.read (c.entryPath key)).toOption.bind CacheEntry.decode?

def get (c : Cache) (now : Instant) (key hash : String) (d : Disk) : Option Bytes × Disk :=
  if !c.isEnabled then (none, d)
  else
    match c.entry? key d with
    | none => (none, d)
    | some e =>
      if e.hash != hash then (none, d)
      else if c.isExpired now e then (none, (d.remove (c.entryPath key)).toOption.getD d)
      else (some e.data, d)

/-- Stores data for a key under a hash. The directory is not made again. -/
def set (c : Cache) (now : Instant) (key hash : String) (data : Bytes) (d : Disk) :
    Except Failure Disk :=
  if !c.isEnabled then .ok d
  else Failure.ofIo (d.write (c.entryPath key) (CacheEntry.encode { hash, time := now, data }))

def invalidate (c : Cache) (key : String) (d : Disk) : Except Failure Disk :=
  if !c.isEnabled then .ok d
  else
    match d.remove (c.entryPath key) with
    | .ok d => .ok d
    | .error e => if e.reason == .noSuchFile then .ok d else .error (.io e)

def clear (c : Cache) (d : Disk) : Disk := if c.isEnabled then d.removeAll c.directory else d

end Cache

/-! ### Statistics -/

structure CacheStats where
  entries : Nat := 0
  totalSize : Nat := 0
  oldestAge : Duration := ⟨0⟩
  newestAge : Duration := ⟨0⟩
deriving DecidableEq, Repr

def CacheStats.ofFiles (files : List (Nat × Duration)) : CacheStats :=
  let ages := files.map (·.2.nanos)
  { entries := files.length
    totalSize := (files.map (·.1)).foldl (· + ·) 0
    oldestAge := ⟨ages.max?.getD 0⟩
    newestAge := ⟨ages.min?.getD 0⟩ }

/-- The statistics of a cache; `age` tells how long ago a file was written. -/
def Cache.stats (c : Cache) (age : String → Duration) (d : Disk) : Except Failure CacheStats :=
  if !c.isEnabled then .ok {}
  else if !d.isPresent c.directory then .error (.io ⟨"lstat", c.directory, .noSuchFile⟩)
  else
    .ok (CacheStats.ofFiles ((d.walkFrom c.directory).filterMap fun (path, node) =>
      match node with
      | .file content =>
        if Path.extension path == Cache.entryExtension then some (content.length, age path) else none
      | .directory => none))

end BytecodeAudit
