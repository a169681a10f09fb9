import TLS13.Lib.Bytes

/-! ChaCha20, Poly1305 and their AEAD construction, RFC 8439. Opening inverts
sealing: the tag is computed from the ciphertext on both sides, and the key
stream cancels. -/

namespace TLS13.Crypto

open Lib

/-! ### Little-endian numbers -/

def le (w k : ℕ) : Bytes := (be w k).reverse

def valueLe (bs : Bytes) : ℕ := value bs.reverse

@[simp] theorem length_le (w k : ℕ) : (le w k).length = w := by simp [le]

def leBlock (w k : ℕ) : Block w := ⟨le w k, length_le w k⟩

/-! ### ChaCha20 -/

def rotateLeft (x n : UInt32) : UInt32 := (x <<< n) ||| (x >>> (32 - n))

def quarterRound (s : List UInt32) (i j k l : ℕ) : List UInt32 :=
  let a := s.getD i 0
  let b := s.getD j 0
  let c := s.getD k 0
  let d := s.getD l 0
  let a := a + b
  let d := rotateLeft (d ^^^ a) 16
  let c := c + d
  let b := rotateLeft (b ^^^ c) 12
  let a := a + b
  let d := rotateLeft (d ^^^ a) 8
  let c := c + d
  let b := rotateLeft (b ^^^ c) 7
  (((s.set i a).set j b).set k c).set l d

/-- A round over the columns and one over the diagonals. -/
def doubleRound (s : List UInt32) : List UInt32 :=
  let s := quarterRound s 0 4 8 12
  let s := quarterRound s 1 5 9 13
  let s := quarterRound s 2 6 10 14
  let s := quarterRound s 3 7 11 15
  let s := quarterRound s 0 5 10 15
  let s := quarterRound s 1 6 11 12
  let s := quarterRound s 2 7 8 13
  quarterRound s 3 4 9 14

def word (bs : Bytes) (i : ℕ) : UInt32 := UInt32.ofNat (valueLe ((bs.drop (4 * i)).take 4))

def initialState (key : Block 32) (nonce : Block 12) (counter : ℕ) : List UInt32 :=
  [0x61707865, 0x3320646e, 0x79622d32, 0x6b206574] ++ (List.range 8).map (word key.val) ++
    [UInt32.ofNat counter] ++ (List.range 3).map (word nonce.val)

def chachaBlock (key : Block 32) (nonce : Block 12) (counter : ℕ) : Bytes :=
  let s := initialState key nonce counter
  let t := (List.range 10).foldl (fun t _ => doubleRound t) s
  (List.zipWith (· + ·) t s).flatMap fun w => le 4 w.toNat

/-- The bytes of the message, each added to its byte of the key stream. -/
def chacha20 (key : Block 32) (nonce : Block 12) (counter : ℕ) (m : Bytes) : Bytes :=
  m.mapIdx fun i b => b ^^^ (chachaBlock key nonce (counter + i / 64)).getD (i % 64) 0

@[simp] theorem length_chacha20 (key : Block 32) (nonce : Block 12) (counter : ℕ) (m : Bytes) :
    (chacha20 key nonce counter m).length = m.length := by
  simp [chacha20]

theorem chacha20_chacha20 (key : Block 32) (nonce : Block 12) (counter : ℕ) (m : Bytes) :
    chacha20 key nonce counter (chacha20 key nonce counter m) = m := by
  unfold chacha20
  rw [List.mapIdx_mapIdx]
  apply List.ext_getElem
  · simp
  · intro i _ _
    simp only [List.getElem_mapIdx, Function.comp_apply, UInt8.xor_assoc, UInt8.xor_self,
      UInt8.xor_zero]

/-! ### Poly1305 -/

def poly1305Prime : ℕ := 2 ^ 130 - 5

def poly1305Blocks (r : ℕ) : ℕ → Bytes → ℕ → ℕ
  | 0, _, acc => acc
  | count + 1, m, acc =>
    poly1305Blocks r count (m.drop 16) ((acc + valueLe (m.take 16 ++ [1])) * r % poly1305Prime)

def poly1305 (key : Bytes) (m : Bytes) : Block 16 :=
  let r := valueLe (key.take 16) &&& 0x0ffffffc0ffffffc0ffffffc0fffffff
  let s := valueLe (key.drop 16)
  leBlock 16 (poly1305Blocks r ((m.length + 15) / 16) m 0 + s)

/-! ### The construction -/

def zerosTo16 (bs : Bytes) : Bytes := List.replicate ((16 - bs.length % 16) % 16) 0

def aeadTag (key : Block 32) (nonce : Block 12) (ad ct : Bytes) : Block 16 :=
  poly1305 ((chachaBlock key nonce 0).take 32)
    (ad ++ zerosTo16 ad ++ ct ++ zerosTo16 ct ++ le 8 ad.length ++ le 8 ct.length)

def aeadSeal (m ad : Bytes) (nonce : Block 12) (key : Block 32) : Block (m.length + 16) :=
  let ct := chacha20 key nonce 1 m
  ⟨ct ++ (aeadTag key nonce ad ct).val, by simp [ct]⟩

/-- `none` when the tag does not match. -/
def aeadOpen (c ad : Bytes) (nonce : Block 12) (key : Block 32) : Option Bytes :=
  if c.length < 16 then none
  else
    let ct := c.take (c.length - 16)
    if c.drop (c.length - 16) = (aeadTag key nonce ad ct).val then some (chacha20 key nonce 1 ct)
    else none

theorem aeadOpen_aeadSeal (m ad : Bytes) (nonce : Block 12) (key : Block 32) :
    aeadOpen (aeadSeal m ad nonce key).val ad nonce key = some m := by
  have hlen : (aeadSeal m ad nonce key).val.length - 16 = (chacha20 key nonce 1 m).length := by simp
  have hval : (aeadSeal m ad nonce key).val =
      chacha20 key nonce 1 m ++ (aeadTag key nonce ad (chacha20 key nonce 1 m)).val := rfl
  rw [aeadOpen, if_neg (by simp), hlen, hval, List.take_left, List.drop_left, if_pos rfl,
    chacha20_chacha20]

end TLS13.Crypto
