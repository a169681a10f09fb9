import TLS13.Blocks

/-! The EncryptedExtensions message, `wrappers/EncryptedExtensions.c`. The length of
the block is copied from a variable, so it is in host order; the one message that
the server sends has no extension and two equal length bytes. -/

namespace TLS13

open Lib

def processEncryptedExtensions (ee : EncryptedExtensions) : Checked Bytes := do
  let length ← extensionsLength ee.extensions
  let ee := { ee with extensionsLength := UInt16.ofNat length }
  let len := 2 + ee.extensionsLength.toNat
  let exArr ← processExtensions ee.extensions
  fill len (storeUint16 ee.extensionsLength ++ exArr)

/-- The block as the encoder writes it, behind its length in host order. -/
theorem processEncryptedExtensions_eq {ee : EncryptedExtensions} (hwf : ee.extensions.WellFormed)
    (hsize : ee.extensions.size ≤ 65535) :
    processEncryptedExtensions ee =
      .ok (storeUint16 (UInt16.ofNat ee.extensions.size) ++
        Rfc.encodeExtensions ee.extensions.toRfc) := by
  have hcount : ee.extensions.toRfc.length < 256 := by
    rw [hwf.length_toRfc]
    exact ee.extensions.length.toNat_lt
  have hblock := hwf.size_eq
  have hlength := extensionsLength_ofRfc hcount (by omega)
  have hprocess := processExtensions_ofRfc hcount (by omega)
  rw [hwf.ofRfc_toRfc] at hlength hprocess
  have hlen : (UInt16.ofNat ee.extensions.size).toNat = ee.extensions.size :=
    toNat_ofNat_uint16 (by omega)
  simp only [processEncryptedExtensions, hlength, hprocess, ← hblock, hlen, Checked.bind_ok]
  rw [fill_eq]
  rw [List.length_append, ← hblock]
  rfl

example : processEncryptedExtensions ⟨0, ⟨1, [⟨16, 0, []⟩]⟩⟩ = .ok [4, 0, 0, 16, 0, 0] := rfl

/-- The message is the block behind its big-endian length, and the block decodes to
the extensions, by the reference and by `parse_extensions`. -/
def EncodesExtensions (ee : EncryptedExtensions) : Prop :=
  ∃ block : Bytes, processEncryptedExtensions ee = .ok (vec 2 block) ∧ block.length ≤ 65535 ∧
    Rfc.decodeExtensions block = some ee.extensions.toRfc ∧
      (ee.extensions.length ≠ 0 → parseExtensions block block.length = .ok ee.extensions)

theorem encodesExtensions_of_length {ee : EncryptedExtensions} (hwf : ee.extensions.WellFormed)
    (hsize : ee.extensions.size ≤ 65535) (hdvd : 257 ∣ ee.extensions.size) :
    EncodesExtensions ee := by
  have hblock := hwf.size_eq
  refine ⟨Rfc.encodeExtensions ee.extensions.toRfc, ?_, by omega,
    Rfc.decodeExtensions_eq (by omega), ?_⟩
  · rw [processEncryptedExtensions_eq hwf hsize, (storeUint16_eq_be_iff (by omega)).mpr hdvd, vec,
      hblock]
  · intro hne
    have hparse := parseExtensions_encode [] (hwf.toRfc_ne_nil hne)
      (by omega : (Rfc.encodeExtensions ee.extensions.toRfc).length < _)
    rwa [List.append_nil, hwf.ofRfc_toRfc] at hparse

theorem dvd_of_encodesExtensions {ee : EncryptedExtensions} (hwf : ee.extensions.WellFormed)
    (hsize : ee.extensions.size ≤ 65535) (h : EncodesExtensions ee) : 257 ∣ ee.extensions.size := by
  obtain ⟨block, hprocess, -⟩ := h
  rw [processEncryptedExtensions_eq hwf hsize, Except.ok.injEq, vec] at hprocess
  obtain ⟨hlength, hblock⟩ := List.append_inj hprocess (by rw [length_be]; rfl)
  rw [← hblock, ← hwf.size_eq] at hlength
  exact (storeUint16_eq_be_iff (by omega)).mp hlength

/-- The message is right exactly when the two bytes of its length are equal. -/
theorem encodesExtensions_iff {ee : EncryptedExtensions} (hwf : ee.extensions.WellFormed)
    (hsize : ee.extensions.size ≤ 65535) :
    EncodesExtensions ee ↔ 257 ∣ ee.extensions.size :=
  ⟨dvd_of_encodesExtensions hwf hsize, encodesExtensions_of_length hwf hsize⟩

/-- One extension of 253 bytes, which makes a block of 257. -/
theorem encodesExtensions_sample :
    EncodesExtensions ⟨0, ⟨1, [⟨16, 253, List.replicate 253 7⟩]⟩⟩ := by
  refine (encodesExtensions_iff ⟨rfl, ?_⟩ (by decide)).mpr (by decide)
  intro e he
  obtain rfl := List.mem_singleton.mp he
  exact List.length_replicate

/-- One empty extension of type 16: its four bytes are announced as 1024. -/
theorem not_encodesExtensions_alpn : ¬ EncodesExtensions ⟨0, ⟨1, [⟨16, 0, []⟩]⟩⟩ := by
  intro h
  have hwf : ExtensionArray.WellFormed ⟨1, [⟨16, 0, []⟩]⟩ := ⟨rfl, by simp⟩
  exact absurd (dvd_of_encodesExtensions hwf (by decide) h) (by decide)

end TLS13
