import TLS13.Crypto.ChaCha20Poly1305

/-! The X25519 function of RFC 7748: the Montgomery ladder over the field of
`2 ^ 255 - 19` elements, with scalars and coordinates as little-endian bytes. -/

namespace TLS13.Crypto

open Lib

def fieldPrime : ℕ := 2 ^ 255 - 19

def fieldAdd (a b : ℕ) : ℕ := (a + b) % fieldPrime

def fieldSub (a b : ℕ) : ℕ := (a + (fieldPrime - b)) % fieldPrime

def fieldMul (a b : ℕ) : ℕ := a * b % fieldPrime

/-- The `n` low bits of `k`, the highest first. -/
def bits (n k : ℕ) : List Bool := (List.range n).reverse.map k.testBit

/-- Square and multiply. -/
def fieldPow (x : ℕ) : List Bool → ℕ → ℕ
  | [], acc => acc
  | b :: bs, acc =>
    let sq := fieldMul acc acc
    fieldPow x bs (if b then fieldMul sq x else sq)

/-- Projective coordinates of two points that differ by the base of the ladder. -/
structure Ladder where
  x2 : ℕ
  z2 : ℕ
  x3 : ℕ
  z3 : ℕ

namespace Ladder

def swap (s : Ladder) : Ladder := ⟨s.x3, s.z3, s.x2, s.z2⟩

/-- Double the one point and add the two. -/
def step (u : ℕ) (s : Ladder) : Ladder :=
  let a := fieldAdd s.x2 s.z2
  let aa := fieldMul a a
  let b := fieldSub s.x2 s.z2
  let bb := fieldMul b b
  let e := fieldSub aa bb
  let c := fieldAdd s.x3 s.z3
  let d := fieldSub s.x3 s.z3
  let da := fieldMul d a
  let cb := fieldMul c b
  let sum := fieldAdd da cb
  let diff := fieldSub da cb
  ⟨fieldMul aa bb, fieldMul e (fieldAdd aa (fieldMul 121665 e)), fieldMul sum sum,
    fieldMul u (fieldMul diff diff)⟩

def run (u : ℕ) : List Bool → Ladder → Ladder
  | [], s => s
  | b :: bs, s => run u bs (if b then (s.swap.step u).swap else s.step u)

end Ladder

/-- The scalar with its three low bits and its top bit cleared and bit 254 set. -/
def clamp (n : Block 32) : ℕ :=
  (valueLe n.val &&& (2 ^ 255 - 8)) ||| 2 ^ 254

def x25519 (n p : Block 32) : Block 32 :=
  let u := valueLe p.val % 2 ^ 255 % fieldPrime
  let s := Ladder.run u (bits 255 (clamp n)) ⟨1, 0, u, 1⟩
  leBlock 32 (fieldMul s.x2 (fieldPow s.z2 (bits 255 (fieldPrime - 2)) 1))

def basePoint : Block 32 := leBlock 32 9

end TLS13.Crypto
