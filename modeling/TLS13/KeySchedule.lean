import TLS13.Rfc.KeySchedule
import TLS13.Util

/-! The key schedule of `key_schedule.c`. `HKDF_Expand_Label` assembles its
label in two sized buffers, so it is checked; each derivation is then shown to
return, with the value it returns. -/

namespace TLS13

open Lib

variable (S : Sodium)

/-! ### Labels -/

def baseLabel : Bytes := ascii ['t', 'l', 's', '1', '3', ' ']

/-- The info string that `HKDF_Expand_Label` builds in `buf`. -/
def hkdfExpandLabelInfo (label context : Bytes) (contextLength : UInt8) (length : UInt16) :
    Checked Bytes := do
  let len := 2 + 1 + 6 + label.length + 1 + contextLength.toNat
  let labelLength := UInt8.ofNat (6 + label.length)
  let fullLabel ← combineArray labelLength.toNat baseLabel label
  let ctx ← readBytes context 0 contextLength.toNat
  fill len (storeUint16 (htons length) ++ [labelLength] ++ fullLabel ++ [contextLength] ++ ctx)

def hkdfExpandLabel (secret : Block 32) (label context : Bytes) (contextLength : UInt8)
    (length : UInt16) : Checked (Block length.toNat) := do
  let buf ← hkdfExpandLabelInfo label context contextLength length
  return S.kdfExpand length.toNat buf secret

/-! ### Secrets -/

def processBaseDerivedSecret : Checked (Block 32) := do
  let zero := Block.zero hashLength
  let earlySecret := S.kdfExtract zero.val zero.val
  let emptyHash := S.hashSha256 []
  hkdfExpandLabel S earlySecret (ascii ['d', 'e', 'r', 'i', 'v', 'e', 'd']) emptyHash.val 32 32

/-- `derivedSecret` is the null pointer in the call of the state machine. -/
def processHandshakeSecret (sharedSecret : Block 32) (derivedSecret : Option (Block 32)) :
    Checked (Block 32) :=
  match derivedSecret with
  | some ds => return S.kdfExtract ds.val sharedSecret.val
  | none => do
    let ds ← processBaseDerivedSecret S
    return S.kdfExtract ds.val sharedSecret.val

/-- The two traffic secrets differ only in their label. -/
def processHandshakeTrafficSecret (label : Bytes) (sharedSecret transciptHash : Block 32) :
    Checked (Block 32) := do
  let derivedSecret ← processBaseDerivedSecret S
  let handshakeSecret ← processHandshakeSecret S sharedSecret (some derivedSecret)
  hkdfExpandLabel S handshakeSecret label transciptHash.val 32 32

def processServerHandshakeTrafficSecret (sharedSecret transciptHash : Block 32) :
    Checked (Block 32) :=
  processHandshakeTrafficSecret S
    (ascii ['s', ' ', 'h', 's', ' ', 't', 'r', 'a', 'f', 'f', 'i', 'c']) sharedSecret transciptHash

def processClientHandshakeTrafficSecret (sharedSecret transciptHash : Block 32) :
    Checked (Block 32) :=
  processHandshakeTrafficSecret S
    (ascii ['c', ' ', 'h', 's', ' ', 't', 'r', 'a', 'f', 'f', 'i', 'c']) sharedSecret transciptHash

def generateWriteKey (secret : Block 32) : Checked (Block 32) :=
  hkdfExpandLabel S secret (ascii ['k', 'e', 'y']) [] 0 32

def generateWriteIv (secret : Block 32) : Checked (Block 12) :=
  hkdfExpandLabel S secret (ascii ['i', 'v']) [] 0 12

def generateFinishedKey (baseKey : Block 32) : Checked (Block 32) :=
  hkdfExpandLabel S baseKey (ascii ['f', 'i', 'n', 'i', 's', 'h', 'e', 'd']) [] 0 32

def processClientApplicationTrafficSecret0 (secret transciptHash : Block 32) : Checked (Block 32) :=
  hkdfExpandLabel S secret (ascii ['c', ' ', 'a', 'p', ' ', 't', 'r', 'a', 'f', 'f', 'i', 'c'])
    transciptHash.val 32 32

def processServerApplicationTrafficSecret0 (secret transciptHash : Block 32) : Checked (Block 32) :=
  hkdfExpandLabel S secret (ascii ['s', ' ', 'a', 'p', ' ', 't', 'r', 'a', 'f', 'f', 'i', 'c'])
    transciptHash.val 32 32

def processMasterSecret (handshakeSecret : Block 32) : Checked (Block 32) := do
  let zero := Block.zero hashLength
  let emptyHash := S.hashSha256 []
  let tempSecret ←
    hkdfExpandLabel S handshakeSecret (ascii ['d', 'e', 'r', 'i', 'v', 'e', 'd']) emptyHash.val 32 32
  return S.kdfExtract tempSecret.val zero.val

/-- Hashes a copy, so the running state is not finalised. -/
def getHash (state : HashState) : Block 32 :=
  let copy := state
  copy.final S

/-! ### Nonces -/

/-- `htobe64`. -/
def htobe64 (n : UInt64) : UInt64 :=
  (n <<< 56) ||| ((n <<< 40) &&& (0xFF000000000000 : UInt64)) |||
    ((n <<< 24) &&& (0xFF0000000000 : UInt64)) ||| ((n <<< 8) &&& (0xFF00000000 : UInt64)) |||
    ((n >>> 8) &&& (0xFF000000 : UInt64)) ||| ((n >>> 24) &&& (0xFF0000 : UInt64)) |||
    ((n >>> 40) &&& (0xFF00 : UInt64)) ||| (n >>> 56)

/-- The eight bytes `memcpy` takes from a 64-bit variable. -/
def storeUint64 (n : UInt64) : Bytes :=
  (List.range 8).map fun k => (n >>> UInt64.ofNat (8 * k)).toUInt8

def generateNonce (iv : Block 12) (counter : UInt64) : Block 12 :=
  let temp := htobe64 counter
  let out : Block 12 := ⟨List.replicate 4 0 ++ storeUint64 temp, rfl⟩
  out.xor iv

/-! ### The derivations return the reference values -/

theorem hkdfExpandLabelInfo_eq {label context : Bytes} {contextLength : UInt8} (length : UInt16)
    (hl : label.length ≤ 249) (hc : context.length = contextLength.toNat) :
    hkdfExpandLabelInfo label context contextLength length =
      .ok (Rfc.hkdfLabel label context length.toNat) := by
  have hll : (UInt8.ofNat (6 + label.length)).toNat = 6 + label.length :=
    toNat_ofNat_uint8 (by omega)
  have hcomb : combineArray (6 + label.length) baseLabel label = .ok (baseLabel ++ label) :=
    fill_eq (by simp [baseLabel])
  have hctx : readBytes context 0 contextLength.toNat = .ok context := hc ▸ readBytes_self context
  have hstore : storeUint16 (htons length) = be 2 length.toNat := writeUint16_eq length
  simp only [hkdfExpandLabelInfo, hll, hcomb, hctx, hstore, Checked.bind_ok]
  rw [fill_eq (by simp [baseLabel]; omega)]
  simp [Rfc.hkdfLabel, baseLabel, vec, be, hc, Nat.add_comm]

theorem hkdfExpandLabel_eq (secret : Block 32) {label context : Bytes} {contextLength : UInt8}
    (length : UInt16) (hl : label.length ≤ 249) (hc : context.length = contextLength.toNat) :
    hkdfExpandLabel S secret label context contextLength length =
      .ok (Rfc.hkdfExpandLabel S secret label context length.toNat) := by
  simp [hkdfExpandLabel, hkdfExpandLabelInfo_eq length hl hc, Rfc.hkdfExpandLabel]

@[simp] theorem processBaseDerivedSecret_eq :
    processBaseDerivedSecret S = .ok (Rfc.deriveSecret S (Rfc.earlySecret S)
      (ascii ['d', 'e', 'r', 'i', 'v', 'e', 'd']) []) :=
  hkdfExpandLabel_eq S _ 32 (by simp) (by simp)

@[simp] theorem processHandshakeSecret_eq (sharedSecret : Block 32) :
    processHandshakeSecret S sharedSecret none = .ok (Rfc.handshakeSecret S sharedSecret) := by
  simp [processHandshakeSecret, Rfc.handshakeSecret]

/-- Deriving the secret from scratch for each traffic secret gives the same one. -/
theorem processHandshakeTrafficSecret_eq {label : Bytes} (hl : label.length ≤ 249)
    (sharedSecret transciptHash : Block 32) :
    processHandshakeTrafficSecret S label sharedSecret transciptHash =
      .ok (Rfc.hkdfExpandLabel S (Rfc.handshakeSecret S sharedSecret) label transciptHash.val 32) := by
  simp only [processHandshakeTrafficSecret, processBaseDerivedSecret_eq, processHandshakeSecret,
    Checked.bind_ok, Checked.pure_eq]
  exact hkdfExpandLabel_eq S _ 32 hl (by simp)

@[simp] theorem processServerHandshakeTrafficSecret_eq (sharedSecret transciptHash : Block 32) :
    processServerHandshakeTrafficSecret S sharedSecret transciptHash =
      .ok (Rfc.serverHandshakeTrafficSecret S sharedSecret transciptHash) :=
  processHandshakeTrafficSecret_eq S (by simp) sharedSecret transciptHash

@[simp] theorem processClientHandshakeTrafficSecret_eq (sharedSecret transciptHash : Block 32) :
    processClientHandshakeTrafficSecret S sharedSecret transciptHash =
      .ok (Rfc.clientHandshakeTrafficSecret S sharedSecret transciptHash) :=
  processHandshakeTrafficSecret_eq S (by simp) sharedSecret transciptHash

@[simp] theorem generateWriteKey_eq (secret : Block 32) :
    generateWriteKey S secret = .ok (Rfc.writeKey S secret) :=
  hkdfExpandLabel_eq S secret 32 (by simp) (by simp)

@[simp] theorem generateWriteIv_eq (secret : Block 32) :
    generateWriteIv S secret = .ok (Rfc.writeIv S secret) :=
  hkdfExpandLabel_eq S secret 12 (by simp) (by simp)

@[simp] theorem generateFinishedKey_eq (baseKey : Block 32) :
    generateFinishedKey S baseKey = .ok (Rfc.finishedKey S baseKey) :=
  hkdfExpandLabel_eq S baseKey 32 (by simp) (by simp)

@[simp] theorem processClientApplicationTrafficSecret0_eq (secret transciptHash : Block 32) :
    processClientApplicationTrafficSecret0 S secret transciptHash =
      .ok (Rfc.clientApplicationTrafficSecret0 S secret transciptHash) :=
  hkdfExpandLabel_eq S secret 32 (by simp) (by simp)

@[simp] theorem processServerApplicationTrafficSecret0_eq (secret transciptHash : Block 32) :
    processServerApplicationTrafficSecret0 S secret transciptHash =
      .ok (Rfc.serverApplicationTrafficSecret0 S secret transciptHash) :=
  hkdfExpandLabel_eq S secret 32 (by simp) (by simp)

@[simp] theorem processMasterSecret_eq (handshakeSecret : Block 32) :
    processMasterSecret S handshakeSecret = .ok (Rfc.masterSecret S handshakeSecret) := by
  have hderived : hkdfExpandLabel S handshakeSecret (ascii ['d', 'e', 'r', 'i', 'v', 'e', 'd'])
      (S.hashSha256 []).val 32 32 = .ok (Rfc.deriveSecret S handshakeSecret
        (ascii ['d', 'e', 'r', 'i', 'v', 'e', 'd']) []) :=
    hkdfExpandLabel_eq S handshakeSecret 32 (by simp) (by simp)
  rw [processMasterSecret]
  simp only [hderived, Checked.bind_ok]
  rfl

/-! ### The nonce of a record -/

private theorem htobe64_byte (n : UInt64) {k : ℕ} (hk : k < 8) :
    (htobe64 n >>> UInt64.ofNat (8 * k)).toUInt8 = (n >>> UInt64.ofNat (8 * (7 - k))).toUInt8 := by
  apply UInt8.toBitVec_inj.mp
  -- the byte is fixed and the shifts are evaluated before the cases on its bits
  interval_cases k
  all_goals
    simp only [htobe64, UInt64.toBitVec_toUInt8, UInt64.toBitVec_shiftRight, UInt64.toBitVec_or,
      UInt64.toBitVec_shiftLeft, UInt64.toBitVec_and, UInt64.toBitVec_ofNat, UInt64.reduceOfNat,
      BitVec.shiftLeft_eq', BitVec.ushiftRight_eq', BitVec.ofNat_eq_ofNat, BitVec.toNat_ofNat,
      BitVec.reduceMod, Nat.reduceMul, Nat.reduceSub, Nat.reducePow, Nat.reduceMod]
    ext i hi
    simp only [BitVec.getElem_setWidth, BitVec.getLsbD_ushiftRight, BitVec.getLsbD_or,
      BitVec.getLsbD_and, BitVec.getLsbD_shiftLeft]
    interval_cases i <;> simp

private theorem byte_eq (n : UInt64) {k : ℕ} (hk : k < 8) :
    (n >>> UInt64.ofNat (8 * k)).toUInt8 = UInt8.ofNat (n.toNat / 256 ^ k) := by
  apply UInt8.toNat_inj.mp
  have hs : (UInt64.ofNat (8 * k)).toNat % 64 = 8 * k := by
    rw [UInt64.toNat_ofNat']
    omega
  rw [UInt64.toNat_toUInt8, UInt64.toNat_shiftRight, hs, UInt8.toNat_ofNat',
    Nat.shiftRight_eq_div_pow, pow_mul]
  norm_num

/-- The bytes of a swapped 64-bit number are its big-endian digits. -/
theorem storeUint64_htobe64 (n : UInt64) : storeUint64 (htobe64 n) = be 8 n.toNat := by
  have hbe : be 8 n.toNat = (List.range 8).map fun k => UInt8.ofNat (n.toNat / 256 ^ (7 - k)) := rfl
  rw [hbe, storeUint64]
  apply List.map_congr_left
  intro k hk
  have hk8 : k < 8 := List.mem_range.mp hk
  rw [htobe64_byte n hk8, byte_eq n (by omega)]

/-- A counter takes the last eight bytes of a nonce. -/
theorem be_counter (counter : UInt64) :
    be 12 counter.toNat = List.replicate 4 0 ++ be 8 counter.toNat :=
  be_add_of_lt (w := 8) 4 counter.toNat_lt

theorem generateNonce_eq (iv : Block 12) (counter : UInt64) :
    generateNonce iv counter = Rfc.recordNonce iv counter.toNat := by
  simp only [generateNonce, Rfc.recordNonce, storeUint64_htobe64, be_counter]

/-- The nonce is the IV xored with the padded counter: the first four bytes are
those of the IV, and no two counters give the same nonce. -/
theorem generateNonce_unique (iv : Block 12) :
    (∀ counter, generateNonce iv counter =
        Block.xor ⟨be 12 counter.toNat, length_be 12 counter.toNat⟩ iv ∧
      be 12 counter.toNat = List.replicate 4 0 ++ be 8 counter.toNat ∧
      (generateNonce iv counter).val.take 4 = iv.val.take 4) ∧
    ∀ counter counter', generateNonce iv counter = generateNonce iv counter' ↔
      counter = counter' := by
  constructor
  · intro counter
    refine ⟨generateNonce_eq iv counter, be_counter counter, ?_⟩
    rw [generateNonce_eq]
    exact Rfc.take_recordNonce iv counter.toNat_lt
  · intro counter counter'
    have h := counter.toNat_lt
    have h' := counter'.toNat_lt
    rw [generateNonce_eq, generateNonce_eq, Rfc.recordNonce_inj (by omega) (by omega),
      UInt64.toNat_inj]

end TLS13
