import TLS13.Sodium
import TLS13.Lib.Codec

/-! The key schedule of RFC 8446, sections 7.1 and 7.3, and the per-record nonce
of section 5.3, over the hash and HKDF primitives. This is the reference the
derivations of the source are compared with, and what a client computes. -/

namespace TLS13.Rfc

open Lib

variable (S : Sodium)

/-- `HkdfLabel`: the output length, the prefixed label and the context. -/
def hkdfLabel (label context : Bytes) (length : ℕ) : Bytes :=
  be 2 length ++ vec 1 (ascii ['t', 'l', 's', '1', '3', ' '] ++ label) ++ vec 1 context

theorem length_hkdfLabel (label context : Bytes) (length : ℕ) :
    (hkdfLabel label context length).length = 10 + label.length + context.length := by
  simp [hkdfLabel]
  omega

def decodeHkdfLabel : Decoder (ℕ × Bytes × Bytes) := do
  let length ← number 2
  let label ← takeVec 1
  let context ← takeVec 1
  return (length, label, context)

theorem decodes_hkdfLabel {label context : Bytes} {length : ℕ} (hlabel : label.length ≤ 249)
    (hcontext : context.length ≤ 255) (hlength : length < 256 ^ 2) :
    Decodes decodeHkdfLabel (hkdfLabel label context length)
      (length, ascii ['t', 'l', 's', '1', '3', ' '] ++ label, context) := by
  have hprefixed : (ascii ['t', 'l', 's', '1', '3', ' '] ++ label).length < 256 ^ 1 := by
    rw [List.length_append, length_ascii]
    simp only [List.length_cons, List.length_nil]
    omega
  rw [hkdfLabel, List.append_assoc]
  refine (decodes_number hlength).bind ((decodes_takeVec hprefixed).bind ?_)
  exact (decodes_takeVec (by omega)).last rfl

/-- The encoding determines the length, the label and the context. -/
theorem hkdfLabel_inj {label label' context context' : Bytes} {length length' : ℕ}
    (hlabel : label.length ≤ 249) (hlabel' : label'.length ≤ 249)
    (hcontext : context.length ≤ 255) (hcontext' : context'.length ≤ 255)
    (hlength : length < 256 ^ 2) (hlength' : length' < 256 ^ 2)
    (h : hkdfLabel label context length = hkdfLabel label' context' length') :
    label = label' ∧ context = context' ∧ length = length' := by
  have hdecodes := decodes_hkdfLabel hlabel hcontext hlength
  rw [h] at hdecodes
  have heq := hdecodes.unique (decodes_hkdfLabel hlabel' hcontext' hlength')
  simp only [Prod.mk.injEq, List.append_cancel_left_eq] at heq
  obtain ⟨rfl, rfl, rfl⟩ := heq
  exact ⟨rfl, rfl, rfl⟩

def hkdfExpandLabel (secret : Block 32) (label context : Bytes) (length : ℕ) : Block length :=
  S.kdfExpand length (hkdfLabel label context length) secret

def deriveSecret (secret : Block 32) (label messages : Bytes) : Block 32 :=
  hkdfExpandLabel S secret label (S.hashSha256 messages).val 32

def earlySecret : Block 32 := S.kdfExtract (Block.zero 32).val (Block.zero 32).val

def handshakeSecret (sharedSecret : Block 32) : Block 32 :=
  S.kdfExtract (deriveSecret S (earlySecret S) (ascii ['d', 'e', 'r', 'i', 'v', 'e', 'd']) []).val
    sharedSecret.val

def clientHandshakeTrafficSecret (sharedSecret transcriptHash : Block 32) : Block 32 :=
  hkdfExpandLabel S (handshakeSecret S sharedSecret)
    (ascii ['c', ' ', 'h', 's', ' ', 't', 'r', 'a', 'f', 'f', 'i', 'c']) transcriptHash.val 32

def serverHandshakeTrafficSecret (sharedSecret transcriptHash : Block 32) : Block 32 :=
  hkdfExpandLabel S (handshakeSecret S sharedSecret)
    (ascii ['s', ' ', 'h', 's', ' ', 't', 'r', 'a', 'f', 'f', 'i', 'c']) transcriptHash.val 32

def masterSecret (handshakeSecret : Block 32) : Block 32 :=
  S.kdfExtract (deriveSecret S handshakeSecret (ascii ['d', 'e', 'r', 'i', 'v', 'e', 'd']) []).val
    (Block.zero 32).val

def clientApplicationTrafficSecret0 (masterSecret transcriptHash : Block 32) : Block 32 :=
  hkdfExpandLabel S masterSecret
    (ascii ['c', ' ', 'a', 'p', ' ', 't', 'r', 'a', 'f', 'f', 'i', 'c']) transcriptHash.val 32

def serverApplicationTrafficSecret0 (masterSecret transcriptHash : Block 32) : Block 32 :=
  hkdfExpandLabel S masterSecret
    (ascii ['s', ' ', 'a', 'p', ' ', 't', 'r', 'a', 'f', 'f', 'i', 'c']) transcriptHash.val 32

def finishedKey (baseKey : Block 32) : Block 32 :=
  hkdfExpandLabel S baseKey (ascii ['f', 'i', 'n', 'i', 's', 'h', 'e', 'd']) [] 32

def writeKey (trafficSecret : Block 32) : Block 32 :=
  hkdfExpandLabel S trafficSecret (ascii ['k', 'e', 'y']) [] 32

def writeIv (trafficSecret : Block 32) : Block 12 :=
  hkdfExpandLabel S trafficSecret (ascii ['i', 'v']) [] 12

/-- The sequence number, padded on the left to the size of the IV, xored with it. -/
def recordNonce (iv : Block 12) (sequence : ℕ) : Block 12 :=
  Block.xor ⟨be 12 sequence, length_be 12 sequence⟩ iv

/-- Sequence numbers that the IV has room for give different nonces. -/
theorem recordNonce_inj {iv : Block 12} {sequence sequence' : ℕ} (h : sequence < 256 ^ 12)
    (h' : sequence' < 256 ^ 12) :
    recordNonce iv sequence = recordNonce iv sequence' ↔ sequence = sequence' := by
  rw [recordNonce, recordNonce, Block.xor_left_inj, Subtype.mk.injEq, be_inj h h']

/-- A sequence number of 64 bits leaves the first four bytes of the IV. -/
theorem take_recordNonce {sequence : ℕ} (iv : Block 12) (h : sequence < 256 ^ 8) :
    (recordNonce iv sequence).val.take 4 = iv.val.take 4 := by
  apply Block.take_xor_of_zeros (by norm_num)
  show (be (4 + 8) sequence).take 4 = List.replicate 4 0
  rw [be_add_of_lt 4 h]
  rfl

end TLS13.Rfc
