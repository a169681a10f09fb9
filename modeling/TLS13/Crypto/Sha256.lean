import TLS13.Lib.Bytes

/-! SHA-256, HMAC and HKDF as their standards define them, on byte strings. They
are executable and are what the hash and derivation functions of libsodium
compute. -/

namespace TLS13.Crypto

open Lib

/-- The first `count` chunks of `n` bytes. -/
def chunks (n : ℕ) : ℕ → Bytes → List Bytes
  | 0, _ => []
  | count + 1, bs => bs.take n :: chunks n count (bs.drop n)

/-! ### SHA-256 -/

def roundConstants : List UInt32 :=
  [0x428a2f98, 0x71374491, 0xb5c0fbcf, 0xe9b5dba5, 0x3956c25b, 0x59f111f1, 0x923f82a4, 0xab1c5ed5,
   0xd807aa98, 0x12835b01, 0x243185be, 0x550c7dc3, 0x72be5d74, 0x80deb1fe, 0x9bdc06a7, 0xc19bf174,
   0xe49b69c1, 0xefbe4786, 0x0fc19dc6, 0x240ca1cc, 0x2de92c6f, 0x4a7484aa, 0x5cb0a9dc, 0x76f988da,
   0x983e5152, 0xa831c66d, 0xb00327c8, 0xbf597fc7, 0xc6e00bf3, 0xd5a79147, 0x06ca6351, 0x14292967,
   0x27b70a85, 0x2e1b2138, 0x4d2c6dfc, 0x53380d13, 0x650a7354, 0x766a0abb, 0x81c2c92e, 0x92722c85,
   0xa2bfe8a1, 0xa81a664b, 0xc24b8b70, 0xc76c51a3, 0xd192e819, 0xd6990624, 0xf40e3585, 0x106aa070,
   0x19a4c116, 0x1e376c08, 0x2748774c, 0x34b0bcb5, 0x391c0cb3, 0x4ed8aa4a, 0x5b9cca4f, 0x682e6ff3,
   0x748f82ee, 0x78a5636f, 0x84c87814, 0x8cc70208, 0x90befffa, 0xa4506ceb, 0xbef9a3f7, 0xc67178f2]

/-- The chaining state. -/
structure Words where
  a : UInt32
  b : UInt32
  c : UInt32
  d : UInt32
  e : UInt32
  f : UInt32
  g : UInt32
  h : UInt32

def initialWords : Words :=
  ⟨0x6a09e667, 0xbb67ae85, 0x3c6ef372, 0xa54ff53a, 0x510e527f, 0x9b05688c, 0x1f83d9ab, 0x5be0cd19⟩

def rotateRight (x n : UInt32) : UInt32 := (x >>> n) ||| (x <<< (32 - n))

/-- Sixteen words of a block, extended by `n`, the newest in front. -/
def extendSchedule : ℕ → List UInt32 → List UInt32
  | 0, ws => ws
  | n + 1, ws =>
    let w2 := ws.getD 1 0
    let w15 := ws.getD 14 0
    let s1 := rotateRight w2 17 ^^^ rotateRight w2 19 ^^^ (w2 >>> 10)
    let s0 := rotateRight w15 7 ^^^ rotateRight w15 18 ^^^ (w15 >>> 3)
    extendSchedule n ((s1 + ws.getD 6 0 + s0 + ws.getD 15 0) :: ws)

def schedule (block : Bytes) : List UInt32 :=
  let ws := (chunks 4 16 block).map fun w => UInt32.ofNat (value w)
  (extendSchedule 48 ws.reverse).reverse

def Words.round (s : Words) (kw : UInt32 × UInt32) : Words :=
  let s1 := rotateRight s.e 6 ^^^ rotateRight s.e 11 ^^^ rotateRight s.e 25
  let ch := (s.e &&& s.f) ^^^ (~~~s.e &&& s.g)
  let t1 := s.h + s1 + ch + kw.1 + kw.2
  let s0 := rotateRight s.a 2 ^^^ rotateRight s.a 13 ^^^ rotateRight s.a 22
  let maj := (s.a &&& s.b) ^^^ (s.a &&& s.c) ^^^ (s.b &&& s.c)
  ⟨t1 + (s0 + maj), s.a, s.b, s.c, s.d + t1, s.e, s.f, s.g⟩

def compress (s : Words) (block : Bytes) : Words :=
  let t := (roundConstants.zip (schedule block)).foldl Words.round s
  ⟨s.a + t.a, s.b + t.b, s.c + t.c, s.d + t.d, s.e + t.e, s.f + t.f, s.g + t.g, s.h + t.h⟩

/-- A one bit, zeros, and the length in bits, up to whole blocks of 64 bytes. -/
def pad (m : Bytes) : Bytes :=
  m ++ 0x80 :: List.replicate ((119 - m.length % 64) % 64) 0 ++ be 8 (8 * m.length)

def sha256 (m : Bytes) : Block 32 :=
  let s := (chunks 64 ((pad m).length / 64) (pad m)).foldl compress initialWords
  ⟨be 4 s.a.toNat ++ be 4 s.b.toNat ++ be 4 s.c.toNat ++ be 4 s.d.toNat ++ be 4 s.e.toNat ++
    be 4 s.f.toNat ++ be 4 s.g.toNat ++ be 4 s.h.toNat, by simp⟩

/-! ### HMAC and HKDF -/

def hmac (key m : Bytes) : Block 32 :=
  let short := if 64 < key.length then (sha256 key).val else key
  let full := short ++ List.replicate (64 - short.length) 0
  sha256 (full.map (· ^^^ 0x5c) ++ (sha256 (full.map (· ^^^ 0x36) ++ m)).val)

/-- `count` output blocks, from the `i`-th on. -/
def hkdfBlocks (prk : Block 32) (info : Bytes) : ℕ → ℕ → Bytes → Bytes
  | 0, _, _ => []
  | count + 1, i, previous =>
    let t := hmac prk.val (previous ++ info ++ [UInt8.ofNat i])
    t.val ++ hkdfBlocks prk info count (i + 1) t.val

@[simp] theorem length_hkdfBlocks (prk : Block 32) (info : Bytes) (count i : ℕ) (previous : Bytes) :
    (hkdfBlocks prk info count i previous).length = 32 * count := by
  induction count generalizing i previous with
  | zero => rfl
  | succ count ih =>
    simp only [hkdfBlocks, List.length_append, Block.length_val, ih]
    ring

def hkdfExtract (salt ikm : Bytes) : Block 32 := hmac salt ikm

def hkdfExpand (n : ℕ) (info : Bytes) (prk : Block 32) : Block n :=
  ⟨(hkdfBlocks prk info ((n + 31) / 32) 1 []).take n, by
    rw [List.length_take, length_hkdfBlocks]
    omega⟩

end TLS13.Crypto
