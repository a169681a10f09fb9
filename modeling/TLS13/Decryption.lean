import Mathlib.Data.List.TakeWhile
import TLS13.Opening

/-! Everything that `decrypt_record` can do with a record that was read, beside the
receiver of the protocol. The record opens and its padding is stripped as the
receiver does it; what then happens to the content depends on its length alone.
The content goes over the struct that should point to it, so it takes the place
of the type and of the version, and is too long for the struct from 33 bytes on;
the fragment is what the allocator left in a buffer of the same size. -/

namespace TLS13

open Lib

variable {S : Sodium}

namespace Rfc

theorem stripPadding_of_zeros {inner : Bytes} (h : ∀ b ∈ inner, b = 0) :
    stripPadding inner = none := by
  have hdrop : inner.reverse.dropWhile (· = 0) = [] := by
    rw [List.dropWhile_eq_nil_iff]
    intro b hb
    simpa using h b (List.mem_reverse.mp hb)
  simp [stripPadding, hdrop]

end Rfc

/-- The struct after the copy of a content that it has room for. -/
def TLSPlaintext.overwritten (heap : (n : ℕ) → Block n) (r : TLSPlaintext) (content : Bytes)
    (type : UInt8) : TLSPlaintext where
  type := content.headD type
  legacyRecordVersion := if 8 < content.length then [] else r.legacyRecordVersion
  length := UInt16.ofNat content.length
  fragment := (heap content.length).val

/-- What the code makes of the receiver's content and type. -/
def afterStripping (heap : (n : ℕ) → Block n) (r : TLSPlaintext) :
    Option (Bytes × UInt8) → Checked (ℤ × TLSPlaintext)
  | none => .error .overRead
  | some (content, type) =>
    if 32 < content.length then .error .overWrite
    else .ok (0, TLSPlaintext.overwritten heap r content type)

/-- Every record that was read, under any key and nonce: it does not open and is
refused, or the rest of the function follows the receiver up to the content. -/
theorem decryptRecord_eq_afterStripping (hS : S.OpensShorter) (heap : (n : ℕ) → Block n)
    (out : TLSPlaintext) (r : Record) (key : Block 32) (nonce : Block 12) :
    decryptRecord S heap out r.toTLSPlaintext key nonce =
      match S.aeadDecrypt r.fragment r.header nonce key with
      | none => .ok (-2, out)
      | some inner => afterStripping heap r.toTLSPlaintext (Rfc.stripPadding inner) := by
  cases hopen : S.aeadDecrypt r.fragment r.header nonce key with
  | none =>
    simp only [decryptRecord, processRecordHeaders_eq, r.readBytes_fragment, hopen, Checked.bind_ok]
    rfl
  | some inner =>
    dsimp only
    rcases zeros_or_inner inner with hzero | ⟨content, type, padding, htype, rfl⟩
    · rw [decryptRecord_zeros hS heap out hopen hzero, Rfc.stripPadding_of_zeros hzero]
      rfl
    · have hct : r.fragment.length = content.length + 1 + padding + 16 := by
        rw [hS _ _ _ _ _ hopen, Rfc.length_innerPlaintext]
      rw [decryptRecord_eq S heap out htype hct hopen,
        Rfc.stripPadding_innerPlaintext content htype padding, afterStripping]
      unfold TLSPlaintext.overwrite
      split
      · rfl
      · rfl

/-- A record that seals the content `[7]`: its type comes out as 7, and the fragment
is not the content. -/
theorem decryptRecord_afterStripping_sample :
    decryptRecord Sodium.reference Block.zero ⟨0, [], 0, []⟩
      (Record.ofFragment 23 (sealedZeroKey [7, handshakeType, 0, 0])
        (length_sealedZeroKey (by decide))).toTLSPlaintext (Block.zero 32) (Block.zero 12) =
      .ok (0, ⟨7, [0x03, 0x03], 1, [0]⟩) := by
  have hlt : (sealedZeroKey [7, handshakeType, 0, 0]).length < 256 ^ 2 :=
    length_sealedZeroKey (by decide)
  have hopen : Sodium.reference.aeadDecrypt
      (Record.ofFragment 23 (sealedZeroKey [7, handshakeType, 0, 0]) hlt).fragment
      (Record.ofFragment 23 (sealedZeroKey [7, handshakeType, 0, 0]) hlt).header
      (Block.zero 12) (Block.zero 32) = some [7, handshakeType, 0, 0] :=
    open_sealedZeroKey (by decide)
  rw [decryptRecord_eq_afterStripping Sodium.opensShorter_reference, hopen]
  rfl

end TLS13
