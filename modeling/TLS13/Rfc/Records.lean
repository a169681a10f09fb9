import TLS13.Sodium
import TLS13.Lib.Codec

/-! Record framing and protection, sections 5.1 and 5.2 of RFC 8446: the header
in front of a fragment, the inner plaintext whose zero padding is removed from
the end, and sealing with the header as additional data. -/

namespace TLS13.Rfc

open Lib

/-- Type, version 0x0303 and length. -/
def recordHeader (type : UInt8) (length : ℕ) : Bytes := [type, 0x03, 0x03] ++ be 2 length

@[simp] theorem length_recordHeader (type : UInt8) (length : ℕ) :
    (recordHeader type length).length = 5 := by
  simp [recordHeader]

def plaintextRecord (type : UInt8) (fragment : Bytes) : Bytes :=
  recordHeader type fragment.length ++ fragment

@[simp] theorem take_plaintextRecord (type : UInt8) (fragment : Bytes) :
    (plaintextRecord type fragment).take 5 = recordHeader type fragment.length :=
  List.take_left' (length_recordHeader _ _)

@[simp] theorem drop_plaintextRecord (type : UInt8) (fragment : Bytes) :
    (plaintextRecord type fragment).drop 5 = fragment :=
  List.drop_left' (length_recordHeader _ _)

/-- One record: its type, its version and a fragment within the limit. -/
def takeRecord : Decoder (ℕ × ℕ × Bytes) := do
  let type ← number 1
  let version ← number 2
  let fragment ← takeVec 2
  if fragment.length ≤ 2 ^ 14 then return (type, version, fragment) else failure

theorem decodes_takeRecord (type : UInt8) {fragment : Bytes} (h : fragment.length ≤ 2 ^ 14) :
    Decodes takeRecord (plaintextRecord type fragment) (type.toNat, 0x0303, fragment) := by
  have hbytes : plaintextRecord type fragment =
      be 1 type.toNat ++ (be 2 0x0303 ++ vec 2 fragment) := by
    simp [plaintextRecord, recordHeader, vec, be]
  rw [hbytes]
  refine (decodes_number type.toNat_lt).bind ?_
  refine (decodes_number (by norm_num)).bind ?_
  exact (decodes_takeVec (by omega)).last (if_pos h)

/-- `TLSInnerPlaintext` -/
def innerPlaintext (content : Bytes) (type : UInt8) (padding : ℕ) : Bytes :=
  content ++ type :: List.replicate padding 0

@[simp] theorem length_innerPlaintext (content : Bytes) (type : UInt8) (padding : ℕ) :
    (innerPlaintext content type padding).length = content.length + 1 + padding := by
  simp [innerPlaintext]
  omega

/-- The content and its type: the last byte that is not zero. -/
def stripPadding (inner : Bytes) : Option (Bytes × UInt8) :=
  match inner.reverse.dropWhile (· = 0) with
  | type :: content => some (content.reverse, type)
  | [] => none

theorem stripPadding_innerPlaintext (content : Bytes) {type : UInt8} (h : type ≠ 0) (padding : ℕ) :
    stripPadding (innerPlaintext content type padding) = some (content, type) := by
  have hdrop : (innerPlaintext content type padding).reverse.dropWhile (· = 0) =
      type :: content.reverse := by
    rw [innerPlaintext, List.reverse_append, List.reverse_cons, List.reverse_replicate,
      List.append_assoc, List.dropWhile_append_of_pos (by simp)]
    simp [h]
  simp [stripPadding, hdrop]

variable (S : Sodium)

/-- `TLSCiphertext` -/
def sealRecord (content : Bytes) (type : UInt8) (padding : ℕ) (key : Block 32) (nonce : Block 12) :
    Bytes :=
  let inner := innerPlaintext content type padding
  plaintextRecord 23 (S.aeadEncrypt inner (recordHeader 23 (inner.length + 16)) nonce key).val

/-- The content and type of a protected record, opened with its first five bytes
as additional data. -/
def openRecord (record : Bytes) (key : Block 32) (nonce : Block 12) : Option (Bytes × UInt8) := do
  let inner ← S.aeadDecrypt (record.drop 5) (record.take 5) nonce key
  stripPadding inner

theorem openRecord_sealRecord (h : S.OpensSealed) (content : Bytes) {type : UInt8} (ht : type ≠ 0)
    (padding : ℕ) (key : Block 32) (nonce : Block 12) :
    openRecord S (sealRecord S content type padding key nonce) key nonce = some (content, type) := by
  simp only [openRecord, sealRecord, take_plaintextRecord, drop_plaintextRecord, Block.length_val]
  rw [h]
  exact stripPadding_innerPlaintext content ht padding

end TLS13.Rfc
