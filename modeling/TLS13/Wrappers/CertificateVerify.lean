import TLS13.Rfc.Authentication
import TLS13.Sodium
import TLS13.Util

/-! The signature over the handshake, `wrappers/CertificateVerify.c`. Each of the
two numbers is written with all of its 32 bytes, behind a zero byte when the first
of them has its top bit set; leading zeros are never taken off, so a number that
starts with nine zero bits is longer than it may be. -/

namespace TLS13

open Lib

variable (S : Sodium)

/-! ### The signature -/

/-- `uECC_sign` on the curve secp256r1, with `none` for a failure: private key, hash. -/
abbrev Signer := Block 32 → Block 32 → Option (Block 64)

def processSignatureContent (transcriptHash : Block 32) : Checked (Block 32) := do
  let context := ascii ['T', 'L', 'S', ' ', '1', '.', '3', ',', ' ', 's', 'e', 'r', 'v', 'e', 'r', ' ',
    'C', 'e', 'r', 't', 'i', 'f', 'i', 'c', 'a', 't', 'e', 'V', 'e', 'r', 'i', 'f', 'y']
  let len := 64 + context.length + 1 + 32
  let hash ← readBytes transcriptHash.val 0 32
  let buf ← fill len (List.replicate 64 0x20 ++ context ++ [0] ++ hash)
  return S.hashSha256 buf

def hexDigit (c : UInt8) : Option UInt8 :=
  if 0x30 ≤ c ∧ c ≤ 0x39 then some (c - 0x30)
  else if 0x41 ≤ c ∧ c ≤ 0x46 then some (c - 0x41 + 10)
  else if 0x61 ≤ c ∧ c ≤ 0x66 then some (c - 0x61 + 10)
  else none

/-- `sodium_hex2bin` without characters to ignore. -/
def hex2bin : Bytes → Option Bytes
  | [] => some []
  | [_] => none
  | c0 :: c1 :: rest => do
    let hi ← hexDigit c0
    let lo ← hexDigit c1
    let bin ← hex2bin rest
    return (hi * 16 + lo) :: bin

/-- A file that is too short leaves a part of `hex_key` as it was; what is not
hexadecimal gives another length than the one asserted. -/
def loadCertPrivateKey (file : Bytes) : Checked (Block 32) :=
  if file.length < 64 then .error .uninitialised
  else
    match hex2bin (file.take 64) with
    | none => .error .assertFailed
    | some out => if h : out.length = 32 then .ok ⟨out, h⟩ else .error .assertFailed

/-- `r_pad` and `s_pad`: whether the first byte has its top bit set. -/
def signPad (x : Block 32) : ℕ := if 0x80 ≤ x.val.headD 0 then 1 else 0

/-- The code of `uECC_sign` is printed and not tested; without a signature the
array is read as it was. -/
def createCertificateVerify (sign : Signer) (keyFile : Bytes) (transcriptHash : Block 32) :
    Checked CertificateVerify := do
  let certPrivateKey ← loadCertPrivateKey keyFile
  let toSign ← processSignatureContent S transcriptHash
  match sign certPrivateKey toSign with
  | none => throw .uninitialised
  | some signature => do
    let r ← readBlock signature.val 0 32
    let s ← readBlock signature.val 32 32
    let rPad := signPad r
    let sPad := signPad s
    let rLen := 32 + UInt8.ofNat rPad
    let sLen := 32 + UInt8.ofNat sPad
    let fullDerPayloadLen := 1 + 1 + 1 + 1 + rLen + 1 + 1 + sLen
    let derPayloadLength := fullDerPayloadLen - 2
    let intTypeAsnDer : UInt8 := 0x02
    let buf ← fill fullDerPayloadLen.toNat
      ([0x30, derPayloadLength] ++
        ([intTypeAsnDer, rLen] ++ (List.replicate rPad 0x00 ++ r.val)) ++
        ([intTypeAsnDer, sLen] ++ (List.replicate sPad 0x00 ++ s.val)))
    return {
      algorithm := ecdsaSecp256r1Sha256
      signatureLength := fullDerPayloadLen.toUInt16
      signature := buf }

def processCertificateVerify (cv : CertificateVerify) : Checked Bytes := do
  let len := 2 + 2 + cv.signatureLength.toNat
  let signature ← readBytes cv.signature 0 cv.signatureLength.toNat
  fill len (storeUint16 (htons cv.algorithm) ++ storeUint16 (htons cv.signatureLength) ++ signature)

/-! ### What is built -/

theorem processSignatureContent_eq (transcriptHash : Block 32) :
    processSignatureContent S transcriptHash =
      .ok (S.hashSha256 (Rfc.signatureContent transcriptHash)) := by
  have hread : readBytes transcriptHash.val 0 32 = .ok transcriptHash.val :=
    readBytes_eq (List.append_nil _).symm transcriptHash.length_val.symm
  simp only [processSignatureContent, hread, Checked.bind_ok]
  rw [fill_eq (by simp)]
  rfl

/-- The content of the integer that is written for `x`. -/
def derContent (x : Block 32) : Bytes := List.replicate (signPad x) 0x00 ++ x.val

def derInteger (x : Block 32) : Bytes :=
  0x02 :: UInt8.ofNat (derContent x).length :: derContent x

def derSignature (r s : Block 32) : Bytes :=
  0x30 :: UInt8.ofNat (derInteger r ++ derInteger s).length :: (derInteger r ++ derInteger s)

theorem signPad_le (x : Block 32) : signPad x ≤ 1 := by
  unfold signPad
  split <;> omega

theorem length_derContent (x : Block 32) : (derContent x).length = 32 + signPad x := by
  rw [derContent, List.length_append, List.length_replicate, x.length_val, Nat.add_comm]

theorem length_derInteger (x : Block 32) : (derInteger x).length = 34 + signPad x := by
  rw [derInteger, List.length_cons, List.length_cons, length_derContent]
  omega

theorem length_derSignature (r s : Block 32) :
    (derSignature r s).length = 70 + signPad r + signPad s := by
  rw [derSignature, List.length_cons, List.length_cons, List.length_append, length_derInteger,
    length_derInteger]
  omega

/-- The lengths that the source computes in eight bits are those of what it writes. -/
theorem createCertificateVerify_eq {sign : Signer} {keyFile : Bytes} {key transcriptHash : Block 32}
    {r s : Block 32} (hkey : loadCertPrivateKey keyFile = .ok key)
    (hsign : sign key (S.hashSha256 (Rfc.signatureContent transcriptHash)) = some (r.append s)) :
    createCertificateVerify S sign keyFile transcriptHash =
      .ok ⟨ecdsaSecp256r1Sha256, UInt16.ofNat (derSignature r s).length, derSignature r s⟩ := by
  have hr : readBlock (r.append s).val 0 32 = .ok r := readBlock_eq r rfl
  have hs : readBlock (r.append s).val 32 32 = .ok s := by
    have hdrop : (r.append s).val.drop 32 = s.val ++ [] := by
      rw [List.append_nil]
      exact List.drop_left' r.length_val
    exact readBlock_eq s hdrop
  have hrPad := signPad_le r
  have hsPad := signPad_le s
  have hlen := length_derSignature r s
  have hrLen : 32 + UInt8.ofNat (signPad r) = UInt8.ofNat (derContent r).length := by
    rw [length_derContent]
    interval_cases signPad r <;> rfl
  have hsLen : 32 + UInt8.ofNat (signPad s) = UInt8.ofNat (derContent s).length := by
    rw [length_derContent]
    interval_cases signPad s <;> rfl
  have hfull : 1 + 1 + 1 + 1 + UInt8.ofNat (derContent r).length + 1 + 1 +
      UInt8.ofNat (derContent s).length = UInt8.ofNat (derSignature r s).length := by
    rw [hlen, length_derContent, length_derContent]
    interval_cases signPad r <;> interval_cases signPad s <;> rfl
  have hpayload : UInt8.ofNat (derSignature r s).length - 2 =
      UInt8.ofNat (derInteger r ++ derInteger s).length := by
    rw [hlen, List.length_append, length_derInteger, length_derInteger]
    interval_cases signPad r <;> interval_cases signPad s <;> rfl
  have hwide : (UInt8.ofNat (derSignature r s).length).toUInt16 =
      UInt16.ofNat (derSignature r s).length := by
    rw [hlen]
    interval_cases signPad r <;> interval_cases signPad s <;> rfl
  have hsize : (UInt8.ofNat (derSignature r s).length).toNat = (derSignature r s).length :=
    toNat_ofNat_uint8 (by omega)
  have hfill : fill (derSignature r s).length
      ([0x30, UInt8.ofNat (derInteger r ++ derInteger s).length] ++
        ([0x02, UInt8.ofNat (derContent r).length] ++ (List.replicate (signPad r) 0x00 ++ r.val)) ++
        ([0x02, UInt8.ofNat (derContent s).length] ++ (List.replicate (signPad s) 0x00 ++ s.val))) =
          .ok (derSignature r s) := fill_eq rfl
  simp only [createCertificateVerify, hkey, processSignatureContent_eq, hsign, hr, hs, hrLen, hsLen,
    hfull, hpayload, hwide, hsize, hfill, Checked.bind_ok, Checked.pure_eq]

theorem processCertificateVerify_eq (algorithm : UInt16) {signature : Bytes}
    (h : signature.length < 256 ^ 2) :
    processCertificateVerify ⟨algorithm, UInt16.ofNat signature.length, signature⟩ =
      .ok (Rfc.CertificateVerify.encode ⟨algorithm.toNat, signature⟩) := by
  have hlen := toNat_ofNat_uint16 h
  have halgorithm : storeUint16 (htons algorithm) = be 2 algorithm.toNat := writeUint16_eq algorithm
  have hlength : storeUint16 (htons (UInt16.ofNat signature.length)) = be 2 signature.length := by
    have hstore := writeUint16_eq (UInt16.ofNat signature.length)
    rwa [hlen] at hstore
  simp only [processCertificateVerify, hlen, readBytes_self, halgorithm, hlength, Checked.bind_ok]
  rw [fill_eq (by simp; omega)]
  simp [Rfc.CertificateVerify.encode, vec]

/-! ### When it is DER -/

theorem value_derContent (x : Block 32) : value (derContent x) = value x.val := by
  unfold derContent signPad
  split
  · show (0 : UInt8).toNat * 256 ^ x.val.length + value x.val = value x.val
    rw [UInt8.toNat_zero, Nat.zero_mul, Nat.zero_add]
  · rfl

/-- The content is minimal exactly when the number is so large that it needs all
of its bytes. -/
theorem minimal_derContent_iff (x : Block 32) :
    Der.Minimal (derContent x) ↔ 2 ^ 247 ≤ value x.val := by
  obtain ⟨b, c, rest, hx⟩ : ∃ b c rest, x.val = b :: c :: rest := by
    have hlen := x.length_val
    match hx : x.val with
    | b :: c :: rest => exact ⟨b, c, rest, rfl⟩
    | [] => simp [hx] at hlen
    | [_] => simp [hx] at hlen
  have hrest : rest.length = 30 := by
    have hlen := x.length_val
    rw [hx] at hlen
    simpa using hlen
  have hpow : 128 * 256 ^ rest.length = 2 ^ 247 := by
    rw [hrest]
    norm_num
  by_cases hpad : 0x80 ≤ b
  · have hb : 128 ≤ b.toNat := UInt8.le_iff_toNat_le.mp hpad
    have hcontent : derContent x = 0 :: b :: c :: rest := by
      simp [derContent, signPad, hx, hpad]
    have hle : 128 * 256 ^ (c :: rest).length ≤ b.toNat * 256 ^ (c :: rest).length :=
      Nat.mul_le_mul_right _ hb
    have hstep : 256 ^ rest.length ≤ 256 ^ (c :: rest).length :=
      Nat.pow_le_pow_right (by norm_num) (by simp)
    rw [hcontent, hx, value, ← hpow]
    constructor
    · intro _
      omega
    · intro _
      exact ⟨by decide, fun _ => hb⟩
  · have hb : b.toNat < 128 := by
      rw [UInt8.le_iff_toNat_le] at hpad
      exact not_le.mp hpad
    have hcontent : derContent x = b :: c :: rest := by
      simp [derContent, signPad, hx, hpad]
    rw [hcontent, hx, ← hpow]
    exact Der.minimal_cons_iff hb

theorem isElement_derInteger (x : Block 32) :
    Der.IsElement 0x02 (derContent x) (derInteger x) := by
  have hpad := signPad_le x
  exact Der.isElement_short 0x02 (by rw [length_derContent]; omega)

theorem isElement_derSignature (r s : Block 32) :
    Der.IsElement 0x30 (derInteger r ++ derInteger s) (derSignature r s) := by
  have hr := signPad_le r
  have hs := signPad_le s
  refine Der.isElement_short 0x30 ?_
  rw [List.length_append, length_derInteger, length_derInteger]
  omega

theorem isEcdsaSigValue_derSignature_iff (r s : Block 32) :
    Rfc.IsEcdsaSigValue (value r.val) (value s.val) (derSignature r s) ↔
      2 ^ 247 ≤ value r.val ∧ 2 ^ 247 ≤ value s.val := by
  rw [← minimal_derContent_iff, ← minimal_derContent_iff]
  constructor
  · rintro ⟨er, es, ⟨cr, hcr, -, her⟩, ⟨cs, hcs, -, hes⟩, he⟩
    -- the bytes are read in one way, so the contents are those that were written
    have hcontent := he.content_unique (isElement_derSignature r s)
    obtain ⟨rfl, rfl⟩ := her.prefix_free (isElement_derInteger r) hcontent
    obtain rfl := hes.content_unique (isElement_derInteger s)
    exact ⟨hcr, hcs⟩
  · rintro ⟨hr, hs⟩
    exact ⟨derInteger r, derInteger s,
      ⟨_, hr, value_derContent r, isElement_derInteger r⟩,
      ⟨_, hs, value_derContent s, isElement_derInteger s⟩, isElement_derSignature r s⟩

end TLS13
