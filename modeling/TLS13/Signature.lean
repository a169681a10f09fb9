import TLS13.Crypto.Reference
import TLS13.Wrappers.CertificateVerify

/-! Whether the signature of the server is strict. The encoding of the two numbers
is compared with the one that the distinguished rules allow, and the message
around it with the grammar. -/

namespace TLS13

open Lib

variable (S : Sodium)

/-- The signature is the one DER encoding of the two numbers, its length is the
stored one, and the message around it decodes to the algorithm and the signature. -/
def SignedStrictly (S : Sodium) (sign : Signer) (keyFile : Bytes) (transcriptHash : Block 32)
    (r s : ℕ) : Prop :=
  ∃ cv, createCertificateVerify S sign keyFile transcriptHash = .ok cv ∧
    (∀ e, Rfc.IsEcdsaSigValue r s e ↔ e = cv.signature) ∧
    cv.signature.length = cv.signatureLength.toNat ∧
    ∃ bs, processCertificateVerify cv = .ok bs ∧
      decodeAll Rfc.CertificateVerify.decode bs = some ⟨0x0403, cv.signature⟩

theorem isEcdsaSigValue_of_signedStrictly {sign : Signer} {keyFile : Bytes}
    {key transcriptHash : Block 32} {r s : Block 32} (hkey : loadCertPrivateKey keyFile = .ok key)
    (hsign : sign key (S.hashSha256 (Rfc.signatureContent transcriptHash)) = some (r.append s))
    (h : SignedStrictly S sign keyFile transcriptHash (value r.val) (value s.val)) :
    Rfc.IsEcdsaSigValue (value r.val) (value s.val) (derSignature r s) := by
  obtain ⟨cv, hcv, hstrict, -⟩ := h
  rw [createCertificateVerify_eq S hkey hsign] at hcv
  cases hcv
  exact (hstrict _).mpr rfl

/-- A signature of the numbers `r` and `s` comes out strict exactly when each of
them needs all of its 32 bytes. -/
theorem signedStrictly_iff {sign : Signer} {keyFile : Bytes} {key transcriptHash : Block 32}
    {r s : Block 32} (hkey : loadCertPrivateKey keyFile = .ok key)
    (hsign : sign key (S.hashSha256 (Rfc.signatureContent transcriptHash)) = some (r.append s)) :
    SignedStrictly S sign keyFile transcriptHash (value r.val) (value s.val) ↔
      2 ^ 247 ≤ value r.val ∧ 2 ^ 247 ≤ value s.val := by
  rw [← isEcdsaSigValue_derSignature_iff]
  constructor
  · exact isEcdsaSigValue_of_signedStrictly S hkey hsign
  · intro hstrict
    have hr := signPad_le r
    have hs := signPad_le s
    have hlen := length_derSignature r s
    have hsize : (derSignature r s).length < 256 ^ 2 := by omega
    refine ⟨_, createCertificateVerify_eq S hkey hsign, ?_, (toNat_ofNat_uint16 hsize).symm, _,
      processCertificateVerify_eq _ hsize, ?_⟩
    · intro e
      constructor
      · exact fun he => he.unique hstrict
      · rintro rfl
        exact hstrict
    · exact decodeAll_eq (Rfc.CertificateVerify.decodes _ ecdsaSecp256r1Sha256.toNat_lt hsize)

/-! ### Two signatures -/

def block32 (n : ℕ) : Block 32 := ⟨be 32 n, length_be 32 n⟩

theorem value_block32 {n : ℕ} (h : n < 256 ^ 32) : value (block32 n).val = n := value_be_of_lt h

/-- A key file that holds the private key 1. -/
def sampleKeyFile : Bytes := List.replicate 63 0x30 ++ [0x31]

theorem loadCertPrivateKey_sample : ∃ key, loadCertPrivateKey sampleKeyFile = .ok key := ⟨_, rfl⟩

/-- What signing returned, a signature of `r` and `s`. -/
def signed (r s : ℕ) : Signer := fun _ _ => some ((block32 r).append (block32 s))

theorem signed_eq (r s : ℕ) (key hash : Block 32) :
    signed r s key hash = some ((block32 r).append (block32 s)) := rfl

/-- The key 1 and the nonce 4 make this signature over the transcript hash zero. -/
def sampleR : ℕ := 0xe2534a3532d08fbba02dde659ee62bd0031fe2db785596ef509302446b030852
def sampleS : ℕ := 0x09f502899daa80c5327ac3ed47f0491fb025af2c07b25917d8a4ece597f1d229

theorem sample_lt : sampleR < 256 ^ 32 ∧ sampleS < 256 ^ 32 := by
  norm_num [sampleR, sampleS]

theorem signedStrictly_sample :
    SignedStrictly Sodium.reference (signed sampleR sampleS) sampleKeyFile (Block.zero 32) sampleR
      sampleS := by
  obtain ⟨key, hkey⟩ := loadCertPrivateKey_sample
  have hstrict := signedStrictly_iff Sodium.reference hkey
    (signed_eq sampleR sampleS key (Sodium.reference.hashSha256 (Rfc.signatureContent (Block.zero 32))))
  rw [value_block32 sample_lt.1, value_block32 sample_lt.2] at hstrict
  exact hstrict.mpr (by norm_num [sampleR, sampleS])

/-- The same key with the nonce 379: the first byte of `r` is zero and the second
is below 0x80. -/
def shortR : ℕ := 0x005543894af3d00ed7d740abdbd75c96b06877b787db5f70eea78b90a8d7c00a
def longS : ℕ := 0x2602974fe0a14d2e5b3106614116c2c20054a2e065944f58cf8c834c87a3ec9f

theorem short_lt : shortR < 256 ^ 32 ∧ longS < 256 ^ 32 := by
  norm_num [shortR, longS]

theorem not_signedStrictly_short :
    ¬ SignedStrictly Sodium.reference (signed shortR longS) sampleKeyFile (Block.zero 32) shortR
      longS := by
  intro h
  obtain ⟨key, hkey⟩ := loadCertPrivateKey_sample
  have hr := value_block32 short_lt.1
  have hs := value_block32 short_lt.2
  have hvalues : SignedStrictly Sodium.reference (signed shortR longS) sampleKeyFile (Block.zero 32)
      (value (block32 shortR).val) (value (block32 longS).val) := by
    rw [hr, hs]
    exact h
  have hder := isEcdsaSigValue_of_signedStrictly Sodium.reference hkey
    (signed_eq shortR longS key (Sodium.reference.hashSha256 (Rfc.signatureContent (Block.zero 32))))
    hvalues
  have hlarge := ((isEcdsaSigValue_derSignature_iff _ _).mp hder).1
  rw [hr] at hlarge
  norm_num [shortR] at hlarge

end TLS13
