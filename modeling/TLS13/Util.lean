import TLS13.Types

/-! The helpers of `util.c` and the integer accesses of a host. A number that
the source copies with `memcpy` is laid out in host order, so the byte swaps of
`htons` and `htonl` are definitions here and their effect on the wire is proved.
The development runs on a little-endian host; only `htonl` and `process_uint24`
are stated for both orders. -/

namespace TLS13

open Lib

inductive ByteOrder
  | little
  | big
  deriving DecidableEq

/-- `htons` and `ntohs`. -/
def htons (n : UInt16) : UInt16 := (n <<< 8) ||| (n >>> 8)

/-- `htonl`. -/
def htonl (host : ByteOrder) (n : UInt32) : UInt32 :=
  match host with
  | .little => (n <<< 24) ||| ((n <<< 8) &&& (0xFF0000 : UInt32)) |||
      ((n >>> 8) &&& (0xFF00 : UInt32)) ||| (n >>> 24)
  | .big => n

/-- The two bytes `memcpy` takes from a 16-bit variable. -/
def storeUint16 (n : UInt16) : Bytes := [n.toUInt8, (n >>> 8).toUInt8]

/-- The 16-bit variable `memcpy` fills from the two bytes at `off`. -/
def loadUint16 (mem : Bytes) (off : ℕ) : Checked UInt16 := do
  let b0 ← readByte mem off
  let b1 ← readByte mem (off + 1)
  return b0.toUInt16 ||| (b1.toUInt16 <<< 8)

/-- The three reads of `memcpy(&x, iter, 2); x = ntohs(x)`. -/
def readUint16 (mem : Bytes) (off : ℕ) : Checked UInt16 := do
  let x ← loadUint16 mem off
  return htons x

def getUint24 (data : Bytes) (off : ℕ) : Checked UInt32 := do
  let d0 ← readByte data off
  let d1 ← readByte data (off + 1)
  let d2 ← readByte data (off + 2)
  return (d0.toUInt32 <<< (8 * (3 - 1))) ||| (d1.toUInt32 <<< (8 * (3 - 2))) ||| d2.toUInt32

def processUint24 (host : ByteOrder) (num : UInt32) : Bytes :=
  let a := htonl host num
  [((a >>> 8) &&& 0xFF).toUInt8, ((a >>> 16) &&& 0xFF).toUInt8, ((a >>> 24) &&& 0xFF).toUInt8]

def writeUint16 (num : UInt16) : Bytes :=
  let a := htons num
  storeUint16 a

/-- The loop writes `a` and then `b` into `p`, a buffer of `size` bytes. -/
def combineArray (size : ℕ) (a b : Bytes) : Checked Bytes := fill size (a ++ b)

/-! ### What the accesses do -/

theorem toNat_ofNat_uint8 {n : ℕ} (h : n < 256 ^ 1) : (UInt8.ofNat n).toNat = n := by
  rw [UInt8.toNat_ofNat']
  omega

theorem toNat_ofNat_uint16 {n : ℕ} (h : n < 256 ^ 2) : (UInt16.ofNat n).toNat = n := by
  rw [UInt16.toNat_ofNat']
  omega

theorem toNat_ofNat_uint32 {n : ℕ} (h : n < 256 ^ 4) : (UInt32.ofNat n).toNat = n := by
  rw [UInt32.toNat_ofNat']
  omega

theorem or_shiftLeft {a b i : ℕ} (h : b < 2 ^ i) : a <<< i ||| b = a * 2 ^ i + b := by
  rw [← Nat.shiftLeft_add_eq_or_of_lt h, Nat.shiftLeft_eq]

theorem htons_toNat (n : UInt16) : (htons n).toNat = n.toNat % 256 * 256 + n.toNat / 256 := by
  have hn := n.toNat_lt
  have hlo : n.toNat <<< 8 % 2 ^ 16 = (n.toNat % 256) <<< 8 := by
    simp only [Nat.shiftLeft_eq]
    omega
  have hhi : n.toNat >>> 8 < 2 ^ 8 := by
    rw [Nat.shiftRight_eq_div_pow]
    omega
  calc (htons n).toNat = n.toNat <<< 8 % 2 ^ 16 ||| n.toNat >>> 8 := rfl
    _ = n.toNat % 256 * 256 + n.toNat / 256 := by
      rw [hlo, or_shiftLeft hhi, Nat.shiftRight_eq_div_pow]
      norm_num

theorem writeUint16_eq (n : UInt16) : writeUint16 n = be 2 n.toNat := by
  have hn := n.toNat_lt
  have hhi : n.toNat / 256 < 256 := by omega
  have h0 : (htons n).toUInt8 = UInt8.ofNat (n.toNat / 256) := by
    apply UInt8.toNat_inj.mp
    simp only [UInt16.toNat_toUInt8, htons_toNat, UInt8.toNat_ofNat']
    omega
  have h1 : ((htons n) >>> 8).toUInt8 = UInt8.ofNat n.toNat := by
    apply UInt8.toNat_inj.mp
    have hs : ((htons n) >>> 8).toNat = (htons n).toNat / 256 := by
      rw [← Nat.shiftRight_eq_div_pow _ 8]
      rfl
    have hq : (n.toNat % 256 * 256 + n.toNat / 256) / 256 = n.toNat % 256 := by
      rw [Nat.mul_comm, Nat.mul_add_div (by norm_num), Nat.div_eq_of_lt hhi, Nat.add_zero]
    simp only [UInt16.toNat_toUInt8, hs, htons_toNat, hq, UInt8.toNat_ofNat', Nat.reducePow,
      Nat.mod_mod]
  simp [writeUint16, storeUint16, be, h0, h1]

/-- A number stored in host order has its bytes the other way round. -/
theorem storeUint16_ofNat {n : ℕ} (h : n < 256 ^ 2) :
    storeUint16 (UInt16.ofNat n) = (be 2 n).reverse := by
  have hlow : (UInt16.ofNat n).toUInt8 = UInt8.ofNat n := by
    apply UInt8.toNat_inj.mp
    rw [UInt16.toNat_toUInt8, toNat_ofNat_uint16 h, UInt8.toNat_ofNat']
  have hhigh : (UInt16.ofNat n >>> 8).toUInt8 = UInt8.ofNat (n / 256) := by
    apply UInt8.toNat_inj.mp
    rw [UInt16.toNat_toUInt8, UInt16.toNat_shiftRight, toNat_ofNat_uint16 h, UInt8.toNat_ofNat',
      Nat.shiftRight_eq_div_pow]
    rfl
  simp [storeUint16, be, hlow, hhigh]

/-- A length stored in host order reads the same in network order exactly when its
two bytes are equal. -/
theorem storeUint16_eq_be_iff {n : ℕ} (h : n < 256 ^ 2) :
    storeUint16 (UInt16.ofNat n) = be 2 n ↔ 257 ∣ n := by
  have hbytes : be 2 n = [UInt8.ofNat (n / 256), UInt8.ofNat n] := by simp [be]
  have hswap : UInt8.ofNat n = UInt8.ofNat (n / 256) ↔ n % 256 = n / 256 := by
    rw [← UInt8.toNat_inj, UInt8.toNat_ofNat', UInt8.toNat_ofNat']
    omega
  rw [storeUint16_ofNat h, hbytes]
  simp only [List.reverse_cons, List.reverse_nil, List.nil_append, List.cons_append,
    List.cons.injEq, and_true]
  rw [eq_comm (a := UInt8.ofNat (n / 256)), and_self, hswap]
  omega

/-- Two bytes read in host order and swapped are a big-endian number. -/
theorem htons_load (b0 b1 : UInt8) :
    (htons (b0.toUInt16 ||| (b1.toUInt16 <<< 8))).toNat = value [b0, b1] := by
  have h0 := b0.toNat_lt
  have h1 := b1.toNat_lt
  have hload : (b0.toUInt16 ||| (b1.toUInt16 <<< 8)).toNat = b1.toNat * 256 + b0.toNat := by
    calc (b0.toUInt16 ||| (b1.toUInt16 <<< 8)).toNat
        = b0.toNat ||| b1.toNat <<< 8 % 2 ^ 16 := rfl
      _ = b1.toNat <<< 8 ||| b0.toNat := by
        rw [Nat.or_comm, Nat.mod_eq_of_lt (by rw [Nat.shiftLeft_eq]; omega)]
      _ = b1.toNat * 256 + b0.toNat := or_shiftLeft h0
  rw [htons_toNat, hload]
  simp only [value, List.length_cons, List.length_nil]
  omega

theorem readUint16_eq {mem rest : Bytes} {off : ℕ} {n : UInt16}
    (h : mem.drop off = be 2 n.toNat ++ rest) : readUint16 mem off = .ok n := by
  obtain ⟨b0, b1, hb⟩ : ∃ b0 b1, be 2 n.toNat = [b0, b1] := ⟨_, _, rfl⟩
  have hv : value [b0, b1] = n.toNat := by
    rw [← hb, value_be_of_lt n.toNat_lt]
  rw [hb, List.cons_append] at h
  have h0 := readByte_eq h
  have h1 : readByte mem (off + 1) = .ok b1 :=
    readByte_eq (drop_past (show mem.drop off = [b0] ++ _ from h) rfl)
  simp only [readUint16, loadUint16, h0, h1, Checked.bind_ok, Checked.pure_eq]
  congr 1
  apply UInt16.toNat_inj.mp
  rw [htons_load, hv]

/-- What a successful read of a length says about the bytes from `off` on. -/
theorem drop_eq_of_readUint16 {mem : Bytes} {off : ℕ} {n : UInt16}
    (h : readUint16 mem off = .ok n) : mem.drop off = be 2 n.toNat ++ mem.drop (off + 2) := by
  simp only [readUint16, loadUint16, Checked.bind_eq_ok, Checked.pure_eq, Except.ok.injEq] at h
  obtain ⟨x, ⟨b0, h0, b1, h1, rfl⟩, rfl⟩ := h
  have hb : be 2 (value [b0, b1]) = [b0, b1] := be_value [b0, b1]
  rw [htons_load, hb, drop_eq_of_readByte h0, drop_eq_of_readByte h1]
  rfl

theorem onlyOverReads_readUint16 {mem : Bytes} {off : ℕ} : (readUint16 mem off).OnlyOverReads := by
  have hload : (loadUint16 mem off).OnlyOverReads :=
    onlyOverReads_readByte.bind fun _ _ => onlyOverReads_readByte.bind fun _ _ => .ok _
  exact hload.bind fun _ _ => .ok _

/-- The shifts and ors of `get_uint24` on three bytes. -/
theorem getUint24_toNat (d0 d1 d2 : UInt8) :
    ((d0.toUInt32 <<< 16) ||| (d1.toUInt32 <<< 8) ||| d2.toUInt32).toNat = value [d0, d1, d2] := by
  have h0 := d0.toNat_lt
  have h1 := d1.toNat_lt
  have h2 := d2.toNat_lt
  have hmid : d1.toNat <<< 8 < 2 ^ 16 := by rw [Nat.shiftLeft_eq]; omega
  calc ((d0.toUInt32 <<< 16) ||| (d1.toUInt32 <<< 8) ||| d2.toUInt32).toNat
      = d0.toNat <<< 16 % 2 ^ 32 ||| d1.toNat <<< 8 % 2 ^ 32 ||| d2.toNat := rfl
    _ = d0.toNat <<< 16 ||| d1.toNat <<< 8 ||| d2.toNat := by
      rw [Nat.mod_eq_of_lt (by rw [Nat.shiftLeft_eq]; omega), Nat.mod_eq_of_lt (by omega)]
    _ = (d0.toNat * 256 + d1.toNat) <<< 8 ||| d2.toNat := by
      rw [or_shiftLeft hmid]
      congr 1
      simp only [Nat.shiftLeft_eq]
      ring
    _ = value [d0, d1, d2] := by
      rw [or_shiftLeft h2]
      simp only [value, List.length_cons, List.length_nil]
      ring

theorem getUint24_eq {mem rest : Bytes} {off : ℕ} {n : UInt32} (hn : n.toNat < 256 ^ 3)
    (h : mem.drop off = be 3 n.toNat ++ rest) : getUint24 mem off = .ok n := by
  obtain ⟨d0, d1, d2, hd⟩ : ∃ d0 d1 d2, be 3 n.toNat = [d0, d1, d2] := ⟨_, _, _, rfl⟩
  have hv : value [d0, d1, d2] = n.toNat := by
    rw [← hd, value_be_of_lt hn]
  rw [hd, List.cons_append] at h
  have h0 := readByte_eq h
  have h1 : readByte mem (off + 1) = .ok d1 :=
    readByte_eq (drop_past (show mem.drop off = [d0] ++ _ from h) rfl)
  have h2 : readByte mem (off + 2) = .ok d2 :=
    readByte_eq (drop_past (show mem.drop off = [d0, d1] ++ _ from h) rfl)
  simp only [getUint24, h0, h1, h2, Checked.bind_ok, Checked.pure_eq]
  congr 1
  apply UInt32.toNat_inj.mp
  rw [← hv]
  exact getUint24_toNat d0 d1 d2

theorem drop_eq_of_getUint24 {mem : Bytes} {off : ℕ} {n : UInt32}
    (h : getUint24 mem off = .ok n) :
    n.toNat < 256 ^ 3 ∧ mem.drop off = be 3 n.toNat ++ mem.drop (off + 3) := by
  simp only [getUint24, Checked.bind_eq_ok, Checked.pure_eq, Except.ok.injEq] at h
  obtain ⟨d0, h0, d1, h1, d2, h2, hn⟩ := h
  have hv : n.toNat = value [d0, d1, d2] := by
    rw [← hn]
    exact getUint24_toNat d0 d1 d2
  have hb : be 3 (value [d0, d1, d2]) = [d0, d1, d2] := be_value [d0, d1, d2]
  refine ⟨hv ▸ value_lt _, ?_⟩
  rw [hv, hb, drop_eq_of_readByte h0, drop_eq_of_readByte h1, drop_eq_of_readByte h2]
  rfl

private theorem htonl_little_byte (n : UInt32) :
    ((htonl .little n >>> 8) &&& 0xFF).toUInt8 = (n >>> 16).toUInt8 ∧
      ((htonl .little n >>> 16) &&& 0xFF).toUInt8 = (n >>> 8).toUInt8 ∧
      ((htonl .little n >>> 24) &&& 0xFF).toUInt8 = n.toUInt8 := by
  refine ⟨?_, ?_, ?_⟩ <;>
  · apply UInt8.toBitVec_inj.mp
    -- the shifts are evaluated once, before the cases on the bits of the byte
    simp only [htonl, UInt32.toBitVec_toUInt8, UInt32.toBitVec_shiftRight, UInt32.toBitVec_or,
      UInt32.toBitVec_shiftLeft, UInt32.toBitVec_and, UInt32.toBitVec_ofNat, BitVec.shiftLeft_eq',
      BitVec.ushiftRight_eq', BitVec.ofNat_eq_ofNat, BitVec.reduceMod, BitVec.toNat_ofNat,
      Nat.reducePow, Nat.reduceMod]
    ext i hi
    simp only [BitVec.getElem_setWidth, BitVec.getLsbD_ushiftRight, BitVec.getLsbD_or,
      BitVec.getLsbD_and, BitVec.getLsbD_shiftLeft]
    interval_cases i <;> simp

/-- The bytes of a number are its digits. -/
private theorem shiftRight_byte (n : UInt32) :
    n.toUInt8 = UInt8.ofNat (n.toNat / 256 ^ 0) ∧
      (n >>> 8).toUInt8 = UInt8.ofNat (n.toNat / 256 ^ 1) ∧
      (n >>> 16).toUInt8 = UInt8.ofNat (n.toNat / 256 ^ 2) ∧
      (n >>> 24).toUInt8 = UInt8.ofNat (n.toNat / 256 ^ 3) := by
  refine ⟨?_, ?_, ?_, ?_⟩ <;>
  · apply UInt8.toNat_inj.mp
    simp [Nat.shiftRight_eq_div_pow]

/-- On a little-endian host the three bytes are the low digits of the number. -/
theorem processUint24_little (n : UInt32) : processUint24 .little n = be 3 n.toNat := by
  obtain ⟨h2, h1, h0⟩ := htonl_little_byte n
  obtain ⟨hs0, hs1, hs2, -⟩ := shiftRight_byte n
  simp only [processUint24, be, h2, h1, h0, hs2, hs1, hs0]

/-- On a big-endian host they are the high digits, least significant first. -/
theorem processUint24_big (n : UInt32) :
    processUint24 .big n = ((be 4 n.toNat).take 3).reverse := by
  obtain ⟨-, hs1, hs2, hs3⟩ := shiftRight_byte n
  have hmask (b : UInt8) : b &&& 0xFF = b := by
    apply UInt8.toNat_inj.mp
    have hb := b.toNat_lt
    rw [UInt8.toNat_and, show (0xFF : UInt8).toNat = 2 ^ 8 - 1 from rfl,
      Nat.and_two_pow_sub_one_of_lt_two_pow hb]
  have hmasked (m : UInt32) : (m &&& 0xFF).toUInt8 = m.toUInt8 := by
    rw [UInt32.toUInt8_and]
    exact hmask _
  simp only [processUint24, htonl, hmasked, hs1, hs2, hs3]
  rfl

/-! ### The 24-bit helper on either host -/

/-- The three low-order bytes come out, most significant first, and `get_uint24`
reads them as the number modulo `2 ^ 24`. -/
structure WritesLow (host : ByteOrder) (num : UInt32) : Prop where
  written : processUint24 host num = be 3 num.toNat
  readBack : ∃ n, getUint24 (processUint24 host num) 0 = .ok n ∧ n.toNat = num.toNat % 2 ^ 24

theorem writesLow_of_written {host : ByteOrder} {num : UInt32}
    (h : processUint24 host num = be 3 num.toNat) : WritesLow host num := by
  refine ⟨h, ?_⟩
  obtain ⟨n, hn⟩ : ∃ n : UInt32, n.toNat = num.toNat % 2 ^ 24 :=
    ⟨UInt32.ofNat (num.toNat % 2 ^ 24), toNat_ofNat_uint32 (by omega)⟩
  have hdigits : (processUint24 host num).drop 0 = be 3 n.toNat ++ [] := by
    rw [List.drop_zero, List.append_nil, h, hn, show 2 ^ 24 = 256 ^ 3 from rfl, be_mod]
  exact ⟨n, getUint24_eq (by omega) hdigits, hn⟩

/-- Of four digits the last three are the first three in reverse exactly when all
four read the same in both directions. -/
theorem reverse_take_eq_be_iff (k : ℕ) :
    ((be 4 k).take 3).reverse = be 3 k ↔ (be 4 k).reverse = be 4 k := by
  obtain ⟨d3, d2, d1, d0, hd⟩ : ∃ d3 d2 d1 d0, be 4 k = [d3, d2, d1, d0] := ⟨_, _, _, _, rfl⟩
  have hlow : be 3 k = (be 4 k).drop 1 := rfl
  rw [hlow, hd]
  simp only [List.take_succ_cons, List.take_zero, List.drop_succ_cons, List.drop_zero,
    List.reverse_cons, List.reverse_nil, List.nil_append, List.cons_append, List.cons.injEq, and_true]
  constructor
  · rintro ⟨hmid, -, hends⟩
    exact ⟨hends.symm, hmid, hmid.symm, hends⟩
  · rintro ⟨-, hmid, hmid', hends⟩
    exact ⟨hmid, hmid', hends⟩

/-- The helper is right on a little-endian host, and on a big-endian one exactly for
the numbers whose four bytes read the same in both directions. -/
theorem writesLow_iff (host : ByteOrder) (num : UInt32) :
    WritesLow host num ↔ host = .little ∨ (be 4 num.toNat).reverse = be 4 num.toNat := by
  cases host with
  | little => exact iff_of_true (writesLow_of_written (processUint24_little num)) (.inl rfl)
  | big =>
    have hwritten : WritesLow .big num ↔ processUint24 .big num = be 3 num.toNat :=
      ⟨WritesLow.written, writesLow_of_written⟩
    rw [hwritten, processUint24_big, reverse_take_eq_be_iff]
    simp

/-- The number 1 is written as three zeros on a big-endian host, and read back as 0. -/
theorem not_writesLow_big_one :
    ¬ WritesLow .big 1 ∧ getUint24 (processUint24 .big 1) 0 = .ok 0 := by
  refine ⟨?_, rfl⟩
  intro h
  exact absurd h.written (by decide)

end TLS13
