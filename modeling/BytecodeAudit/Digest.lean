import BytecodeAudit.Text.Basic

/-!
# Digests

The hashes XXH64 with seed zero and BLAKE3 with 256 bits of output.
-/

namespace BytecodeAudit

/-! ### XXH64

Blocks of 32 bytes are mixed into four lanes; what is left is mixed in words of eight, four and one
bytes. -/

namespace Digest.XxHash

def prime1 : UInt64 := 0x9e3779b185ebca87
def prime2 : UInt64 := 0xc2b2ae3d27d4eb4f
def prime3 : UInt64 := 0x165667b19e3779f9
def prime4 : UInt64 := 0x85ebca77c2b2ae63
def prime5 : UInt64 := 0x27d4eb2f165667c5

def rotate (x : UInt64) (n : UInt64) : UInt64 := (x <<< n) ||| (x >>> (64 - n))

def littleEndian (bs : List UInt8) : UInt64 :=
  bs.foldr (fun b acc => (acc <<< 8) ||| b.toUInt64) 0

def mixLane (lane word : UInt64) : UInt64 := rotate (lane + word * prime2) 31 * prime1

def mergeLane (acc lane : UInt64) : UInt64 := (acc ^^^ mixLane 0 lane) * prime1 + prime4

structure Lanes where
  a : UInt64
  b : UInt64
  c : UInt64
  d : UInt64

def Lanes.start : Lanes := ⟨prime1 + prime2, prime2, 0, 0 - prime1⟩

/-- Mixes whole blocks into the lanes; the fuel bounds their number. -/
def Lanes.blocks (fuel : Nat) (l : Lanes) (bs : List UInt8) : Lanes × List UInt8 :=
  match fuel with
  | 0 => (l, bs)
  | n + 1 =>
    if bs.length < 32 then (l, bs)
    else
      let word (i : Nat) : UInt64 := littleEndian ((bs.drop (8 * i)).take 8)
      Lanes.blocks n
        ⟨mixLane l.a (word 0), mixLane l.b (word 1), mixLane l.c (word 2), mixLane l.d (word 3)⟩
        (bs.drop 32)

def Lanes.sum (l : Lanes) : UInt64 :=
  let acc := rotate l.a 1 + rotate l.b 7 + rotate l.c 12 + rotate l.d 18
  mergeLane (mergeLane (mergeLane (mergeLane acc l.a) l.b) l.c) l.d

def tail (acc : UInt64) : List UInt8 → UInt64
  | b0 :: b1 :: b2 :: b3 :: b4 :: b5 :: b6 :: b7 :: bs =>
    let word := littleEndian [b0, b1, b2, b3, b4, b5, b6, b7]
    tail (rotate (acc ^^^ mixLane 0 word) 27 * prime1 + prime4) bs
  | b0 :: b1 :: b2 :: b3 :: bs =>
    let word := littleEndian [b0, b1, b2, b3]
    tail (rotate (acc ^^^ (word * prime1)) 23 * prime2 + prime3) bs
  | b :: bs => tail (rotate (acc ^^^ (b.toUInt64 * prime5)) 11 * prime1) bs
  | [] => acc

/-- Spreads every bit over the word. -/
def avalanche (x : UInt64) : UInt64 :=
  let x := (x ^^^ (x >>> 33)) * prime2
  let x := (x ^^^ (x >>> 29)) * prime3
  x ^^^ (x >>> 32)

def hash (bs : List UInt8) : UInt64 :=
  let size := bs.length
  let (l, rest) := Lanes.start.blocks size bs
  let acc := if size < 32 then prime5 else l.sum
  avalanche (tail (acc + UInt64.ofNat size) rest)

end Digest.XxHash

/-! ### BLAKE3

Chunks of 1024 bytes are cut into blocks of 64 bytes that are compressed one after another, and
joined in a binary tree whose left branches are complete. -/

namespace Digest.Blake3

/-- Eight words that every compression continues. -/
abbrev Chain := Array UInt32

def initial : Chain :=
  #[0x6a09e667, 0xbb67ae85, 0x3c6ef372, 0xa54ff53a, 0x510e527f, 0x9b05688c, 0x1f83d9ab, 0x5be0cd19]

/-- The order in which a round takes the message words of the round before. -/
def permutation : List Nat := [2, 6, 3, 10, 7, 0, 4, 13, 1, 11, 12, 5, 9, 14, 15, 8]

def chunkStart : UInt32 := 1
def chunkEnd : UInt32 := 2
def parent : UInt32 := 4
def root : UInt32 := 8

def rotate (x : UInt32) (n : UInt32) : UInt32 := (x >>> n) ||| (x <<< (32 - n))

/-- Mixes two message words into four words of the state. -/
def mix (v : Array UInt32) (a b c d : Nat) (x y : UInt32) : Array UInt32 :=
  let va := v.getD a 0 + v.getD b 0 + x
  let vd := rotate (v.getD d 0 ^^^ va) 16
  let vc := v.getD c 0 + vd
  let vb := rotate (v.getD b 0 ^^^ vc) 12
  let va := va + vb + y
  let vd := rotate (vd ^^^ va) 8
  let vc := vc + vd
  let vb := rotate (vb ^^^ vc) 7
  (((v.setIfInBounds a va).setIfInBounds b vb).setIfInBounds c vc).setIfInBounds d vd

def round (v m : Array UInt32) : Array UInt32 :=
  let w (i : Nat) : UInt32 := m.getD i 0
  let v := mix v 0 4 8 12 (w 0) (w 1)
  let v := mix v 1 5 9 13 (w 2) (w 3)
  let v := mix v 2 6 10 14 (w 4) (w 5)
  let v := mix v 3 7 11 15 (w 6) (w 7)
  let v := mix v 0 5 10 15 (w 8) (w 9)
  let v := mix v 1 6 11 12 (w 10) (w 11)
  let v := mix v 2 7 8 13 (w 12) (w 13)
  mix v 3 4 9 14 (w 14) (w 15)

def rounds : Nat → Array UInt32 → Array UInt32 → Array UInt32
  | 0, v, _ => v
  | n + 1, v, m => rounds n (round v m) (permutation.map (m.getD · 0)).toArray

def compress (chain block : Array UInt32) (counter : UInt64) (size flags : UInt32) : Chain :=
  let state := chain ++ initial.extract 0 4 ++
    #[counter.toUInt32, (counter >>> 32).toUInt32, size, flags]
  let v := rounds 7 state block
  ((List.range 8).map fun i => v.getD i 0 ^^^ v.getD (i + 8) 0).toArray

def words (fuel : Nat) (bs : List UInt8) : List UInt32 :=
  match fuel with
  | 0 => []
  | n + 1 => (bs.take 4).foldr (fun b acc => (acc <<< 8) ||| b.toUInt32) 0 :: words n (bs.drop 4)

/-- Compresses the blocks of a chunk. The last one gets the flags `final`. -/
def chunkBlocks (fuel : Nat) (chain : Chain) (counter : UInt64) (flags final : UInt32)
    (bs : List UInt8) : Chain :=
  match fuel with
  | 0 => chain
  | n + 1 =>
    let block := (words 16 (bs.take 64)).toArray
    let rest := bs.drop 64
    if rest.isEmpty then
      compress chain block counter (UInt32.ofNat bs.length) (flags ||| chunkEnd ||| final)
    else chunkBlocks n (compress chain block counter 64 flags) counter 0 final rest

def chunk (counter : Nat) (final : UInt32) (bs : List UInt8) : Chain :=
  chunkBlocks 17 initial (UInt64.ofNat counter) chunkStart final bs

/-- The number of chunks in the left branch below `n > 1` chunks: the greatest power of two less
than `n`. -/
def leftChunks (n : Nat) : Nat := Nat.pow 2 (Nat.log2 (n - 1))

/-- The chain of a tree over some chunks. The fuel bounds the height of the tree. -/
def tree (fuel counter : Nat) (final : UInt32) (bs : List UInt8) : Chain :=
  let chunks := (bs.length + 1023) / 1024
  match fuel with
  | 0 => initial
  | n + 1 =>
    if chunks ≤ 1 then chunk counter final bs
    else
      let left := leftChunks chunks
      let l := tree n counter 0 (bs.take (left * 1024))
      let r := tree n (counter + left) 0 (bs.drop (left * 1024))
      compress initial (l ++ r) 0 64 (parent ||| final)

def hash (bs : List UInt8) : String :=
  let chain := tree (Nat.log2 (bs.length + 1) + 2) 0 root bs
  String.join (chain.toList.map fun (w : UInt32) =>
    Text.hexDigits 2 (w &&& 0xff).toNat ++ Text.hexDigits 2 ((w >>> 8) &&& 0xff).toNat ++
      Text.hexDigits 2 ((w >>> 16) &&& 0xff).toNat ++ Text.hexDigits 2 (w >>> 24).toNat)

def hashTexts (parts : List String) : String := hash (parts.flatMap fun p => Text.toBytes p ++ [0])

end Digest.Blake3

end BytecodeAudit
