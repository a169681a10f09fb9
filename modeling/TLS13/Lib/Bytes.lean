import Mathlib.Tactic

/-! Byte strings, fixed-size blocks and big-endian numbers. A `Block n` carries
its length, so a key or a hash of the wrong size cannot be built. `be w k` is
the `w`-byte big-endian string of `k` modulo `256 ^ w`, and `value` reads any
byte string back; the two are inverse on strings of a fixed width. -/

namespace TLS13.Lib

abbrev Bytes := List UInt8

/-- A byte string of exactly `n` bytes. -/
abbrev Block (n : ℕ) := {bs : Bytes // bs.length = n}

namespace Block

variable {n : ℕ}

@[simp] theorem length_val (b : Block n) : b.val.length = n := b.property

def zero (n : ℕ) : Block n := ⟨List.replicate n 0, List.length_replicate⟩

def append {m : ℕ} (a : Block m) (b : Block n) : Block (m + n) :=
  ⟨a.val ++ b.val, by rw [List.length_append, a.length_val, b.length_val]⟩

/-- Bytewise exclusive or. -/
def xor (a b : Block n) : Block n :=
  ⟨List.zipWith (· ^^^ ·) a.val b.val, by simp⟩

/-- What was xored with `b` comes back when it is xored again. -/
theorem xor_xor (a b : Block n) : (a.xor b).xor b = a := by
  apply Subtype.ext
  apply List.ext_getElem
  · simp
  · intro i _ _
    simp only [xor, List.getElem_zipWith]
    rw [UInt8.xor_assoc, UInt8.xor_self, UInt8.xor_zero]

theorem xor_left_inj {a a' : Block n} (b : Block n) : a.xor b = a'.xor b ↔ a = a' := by
  constructor
  · intro h
    rw [← a.xor_xor b, h, xor_xor]
  · rintro rfl
    rfl

/-- Zeros in front leave the front of the other operand. -/
theorem take_xor_of_zeros {a b : Block n} {k : ℕ} (hk : k ≤ n)
    (h : a.val.take k = List.replicate k 0) : (a.xor b).val.take k = b.val.take k := by
  rw [xor, List.take_zipWith, h]
  apply List.ext_getElem
  · simp [hk]
  · intro i _ _
    simp

end Block

/-- Characters of a protocol label, one byte each. -/
def ascii (cs : List Char) : Bytes := cs.map fun c => UInt8.ofNat c.toNat

@[simp] theorem length_ascii (cs : List Char) : (ascii cs).length = cs.length := by simp [ascii]

/-! ### Big-endian numbers -/

/-- The `w` low-order base-256 digits of `k`, most significant first. -/
def be : ℕ → ℕ → Bytes
  | 0, _ => []
  | w + 1, k => UInt8.ofNat (k / 256 ^ w) :: be w k

/-- The number a byte string denotes, most significant byte first. -/
def value : Bytes → ℕ
  | [] => 0
  | b :: bs => b.toNat * 256 ^ bs.length + value bs

@[simp] theorem length_be (w k : ℕ) : (be w k).length = w := by
  induction w with
  | zero => rfl
  | succ w ih => simp [be, ih]

theorem value_lt (bs : Bytes) : value bs < 256 ^ bs.length := by
  induction bs with
  | nil => decide
  | cons b bs ih =>
    have hb := b.toNat_lt
    have hle : b.toNat * 256 ^ bs.length ≤ 255 * 256 ^ bs.length :=
      Nat.mul_le_mul_right _ (by omega)
    simp only [value, List.length_cons, pow_succ]
    omega

theorem value_be (w k : ℕ) : value (be w k) = k % 256 ^ w := by
  induction w with
  | zero => simp [be, value, Nat.mod_one]
  | succ w ih =>
    have hdigit : (UInt8.ofNat (k / 256 ^ w)).toNat = k / 256 ^ w % 256 := by simp
    rw [be, value, length_be, ih, hdigit, pow_succ, Nat.mod_mul, Nat.mul_comm (256 ^ w),
      Nat.add_comm]

theorem value_be_of_lt {w k : ℕ} (h : k < 256 ^ w) : value (be w k) = k := by
  rw [value_be, Nat.mod_eq_of_lt h]

theorem be_value_add (bs : Bytes) (m : ℕ) : be bs.length (m * 256 ^ bs.length + value bs) = bs := by
  induction bs generalizing m with
  | nil => rfl
  | cons b bs ih =>
    have hpos : 0 < 256 ^ bs.length := by positivity
    have hsplit : m * 256 ^ (bs.length + 1) + (b.toNat * 256 ^ bs.length + value bs) =
        (m * 256 + b.toNat) * 256 ^ bs.length + value bs := by ring
    simp only [List.length_cons, be, value, hsplit, ih]
    rw [Nat.mul_comm _ (256 ^ bs.length), Nat.mul_add_div hpos,
      Nat.div_eq_of_lt (value_lt bs), Nat.add_zero]
    congr 1
    apply UInt8.toNat_inj.mp
    simp

/-- A byte string is the big-endian string of its value at its own width. -/
theorem be_value (bs : Bytes) : be bs.length (value bs) = bs := by
  simpa using be_value_add bs 0

/-- A number of `w` digits is determined by them. -/
theorem be_inj {w k k' : ℕ} (h : k < 256 ^ w) (h' : k' < 256 ^ w) : be w k = be w k' ↔ k = k' := by
  refine ⟨?_, congrArg (be w)⟩
  intro hbe
  rw [← value_be_of_lt h, ← value_be_of_lt h', hbe]

/-- A wide number is its high digits followed by its low digits. -/
theorem be_append (v w k : ℕ) : be (v + w) k = be v (k / 256 ^ w) ++ be w k := by
  induction v with
  | zero => simp [be]
  | succ v ih =>
    have hw : v + 1 + w = v + w + 1 := by omega
    rw [hw, be, be, List.cons_append, ih, Nat.div_div_eq_div_mul, ← pow_add, Nat.add_comm w v]

/-- Only the low digits of a number are written. -/
theorem be_mod (w k : ℕ) : be w (k % 256 ^ w) = be w k := by
  have h := be_value (be w k)
  rwa [length_be, value_be] at h

theorem be_zero (w : ℕ) : be w 0 = List.replicate w 0 := by
  induction w with
  | zero => rfl
  | succ w ih => simp [be, ih, List.replicate_succ]

/-- A number that fits into its low digits is padded with zeros. -/
theorem be_add_of_lt {w k : ℕ} (v : ℕ) (h : k < 256 ^ w) :
    be (v + w) k = List.replicate v 0 ++ be w k := by
  rw [be_append, Nat.div_eq_of_lt h, be_zero]

end TLS13.Lib
