import TLS13.Hello

/-! The lengths of a protected record. The inner plaintext is counted in 16 bits,
and 16 more than that count go into the 16 bits of the header; up to the limit of
the protocol both hold what they should, and above it the first that wraps is the
header. -/

namespace TLS13

open Lib

variable {S : Sodium}

/-- The length that the header of a record states. -/
def headerLength (bs : Bytes) : ℕ := value ((bs.drop 3).take 2)

theorem headerLength_plaintextRecord (type : UInt8) (fragment : Bytes) :
    headerLength (Rfc.plaintextRecord type fragment) = fragment.length % 256 ^ 2 := by
  have hbytes : ((Rfc.plaintextRecord type fragment).drop 3).take 2 = be 2 fragment.length :=
    List.take_left' (length_be 2 _)
  rw [headerLength, hbytes, value_be]

theorem length_sealRecord (content : Bytes) (type : UInt8) (padding : ℕ) (key : Block 32)
    (nonce : Block 12) :
    ((Rfc.sealRecord S content type padding key nonce).drop 5).length =
      content.length + 1 + padding + 16 := by
  rw [Rfc.sealRecord, Rfc.drop_plaintextRecord, Block.length_val, Rfc.length_innerPlaintext]

theorem headerLength_sealRecord (content : Bytes) (type : UInt8) (padding : ℕ) (key : Block 32)
    (nonce : Block 12) :
    headerLength (Rfc.sealRecord S content type padding key nonce) =
      (content.length + 1 + padding + 16) % 256 ^ 2 := by
  rw [Rfc.sealRecord, headerLength_plaintextRecord, Block.length_val, Rfc.length_innerPlaintext]

/-! ### Within the limit -/

/-- The bytes are a record of the protected type and version 0x0303, whose stated
length is that of what follows the header and within the limit; a receiver that
opens it finds the content and the type of `r`. -/
structure ReceivedAs (S : Sodium) (bs : Bytes) (r : TLSPlaintext) (padding : ℕ) (key : Block 32)
    (nonce : Block 12) : Prop where
  header : bs.take 3 = [23, 0x03, 0x03]
  stated : headerLength bs = (bs.drop 5).length
  length : (bs.drop 5).length = r.length.toNat + 1 + padding + 16
  limit : (bs.drop 5).length ≤ 2 ^ 14 + 256
  opened : Rfc.openRecord S bs key nonce = some (r.fragment, r.type)

/-- A record within the limit is sealed, without a failing assertion, into one that
the receiver opens, whatever its content ends in. -/
theorem encryptRecord_received (hS : S.OpensSealed) (rand : ℕ) {r : TLSPlaintext} (key : Block 32)
    (nonce : Block 12) (htype : r.type ≠ 0) (hlen : r.length.toNat ≤ 2 ^ 14)
    (hfrag : r.fragment.length = r.length.toNat) :
    ∃ bs, encryptRecord S rand r key nonce = .ok bs ∧
      ReceivedAs S bs r (rand % 101) key nonce := by
  have hpad : rand % 101 < 101 := Nat.mod_lt _ (by norm_num)
  refine ⟨_, encryptRecord_eq S rand key nonce hfrag (by omega), rfl, ?_, ?_, ?_, ?_⟩
  · rw [headerLength_sealRecord, length_sealRecord]
    exact Nat.mod_eq_of_lt (by omega)
  · rw [length_sealRecord, hfrag]
  · rw [length_sealRecord, hfrag]
    omega
  · exact Rfc.openRecord_sealRecord S hS r.fragment htype (rand % 101) key nonce

/-- The server's own EncryptedExtensions. -/
theorem encryptRecord_received_sample :
    ∃ bs, encryptRecord Sodium.reference 7 ⟨handshakeType, [], 6, nullEncryptedExtensions⟩
        (Block.zero 32) (Block.zero 12) = .ok bs ∧
      ReceivedAs Sodium.reference bs ⟨handshakeType, [], 6, nullEncryptedExtensions⟩ (7 % 101)
        (Block.zero 32) (Block.zero 12) :=
  encryptRecord_received (S := Sodium.reference)
    (r := ⟨handshakeType, [], 6, nullEncryptedExtensions⟩) Sodium.opensSealed_reference 7
    (Block.zero 32) (Block.zero 12) (by decide) (by decide) rfl

/-! ### Every length -/

/-- The size that is allocated for the inner plaintext. -/
def innerSize (rand : ℕ) (r : TLSPlaintext) : ℕ :=
  (UInt16.ofNat (r.length.toNat + 1 + rand % 101)).toNat

/-- `encrypt_record` fails, or its inner buffer has room for what goes into it and
its header states the number of bytes that follow. -/
def LengthsHold (S : Sodium) (rand : ℕ) (r : TLSPlaintext) (key : Block 32) (nonce : Block 12) :
    Prop :=
  encryptRecord S rand r key nonce = .error .assertFailed ∨
    (r.length.toNat + 1 + rand % 101 ≤ innerSize rand r ∧
      ∃ bs, encryptRecord S rand r key nonce = .ok bs ∧ headerLength bs = (bs.drop 5).length)

/-- The buffer wraps first and is overrun; the header can wrap without. -/
theorem headerLength_of_lengthsHold {rand : ℕ} {r : TLSPlaintext} {key : Block 32}
    {nonce : Block 12} (hfrag : r.fragment.length = r.length.toNat)
    (h : LengthsHold S rand r key nonce) :
    (r.length.toNat + 1 + rand % 101 + 16) % 256 ^ 2 = r.length.toNat + 1 + rand % 101 + 16 := by
  by_cases hlen : r.length.toNat + 1 + rand % 101 < 256 ^ 2
  · have hseal := encryptRecord_eq S rand key nonce hfrag hlen
    rcases h with h | ⟨-, bs, hbs, hstated⟩
    · rw [hseal] at h
      cases h
    · rw [hseal] at hbs
      cases hbs
      rwa [headerLength_sealRecord, length_sealRecord, hfrag] at hstated
  · have hover := encryptRecord_overWrite S rand key nonce hfrag (not_lt.mp hlen)
    rcases h with h | ⟨-, bs, hbs, -⟩
    · rw [hover] at h
      cases h
    · rw [hover] at hbs
      cases hbs

/-- The lengths hold exactly when the record and its padding leave room for 16
bits of ciphertext length. -/
theorem lengthsHold_iff {rand : ℕ} {r : TLSPlaintext} {key : Block 32} {nonce : Block 12}
    (hfrag : r.fragment.length = r.length.toNat) :
    LengthsHold S rand r key nonce ↔ r.length.toNat + 1 + rand % 101 + 16 < 2 ^ 16 := by
  constructor
  · intro h
    have hmod := headerLength_of_lengthsHold hfrag h
    omega
  · intro hlt
    refine .inr ⟨?_, _, encryptRecord_eq S rand key nonce hfrag (by omega), ?_⟩
    · rw [innerSize, toNat_ofNat_uint16 (by omega)]
    · rw [headerLength_sealRecord, length_sealRecord, hfrag]
      exact Nat.mod_eq_of_lt (by omega)

theorem lengthsHold_sample :
    LengthsHold Sodium.reference 7 ⟨handshakeType, [], 6, nullEncryptedExtensions⟩ (Block.zero 32)
      (Block.zero 12) :=
  (lengthsHold_iff rfl).mpr (by decide)

/-- 65519 bytes without padding: all assertions pass, and the header announces no
byte in front of 65536. -/
theorem not_lengthsHold_long :
    ¬ LengthsHold Sodium.reference 0 ⟨handshakeType, [0x03, 0x03], 65519, List.replicate 65519 0⟩
      (Block.zero 32) (Block.zero 12) := by
  intro h
  have hmod := headerLength_of_lengthsHold List.length_replicate h
  exact absurd hmod (by decide)

end TLS13
