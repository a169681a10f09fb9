import TLS13.Hello

/-! The round trip of record protection. Opening a sealed record recovers its
content, and the copy that should fill the new fragment goes to the struct that
points to it: the fragment holds what the heap left there, and only a record
without content comes back. -/

namespace TLS13

open Lib

variable (S : Sodium)

/-- The record `r` is sealed, read back as a record and opened, and comes out as
it went in. -/
def RoundTrip (heap : (n : ℕ) → Block n) (rand : ℕ) (out r : TLSPlaintext) (key : Block 32)
    (nonce : Block 12) : Prop :=
  ∃ bs record socket out',
    encryptRecord S rand r key nonce = .ok bs ∧
    readRecord (ByteStream.whole bs) = .ok (record, socket) ∧
    decryptRecord S heap out record.toTLSPlaintext key nonce = .ok (0, out') ∧
    out'.type = r.type ∧ out'.legacyRecordVersion = [0x03, 0x03] ∧ out'.length = r.length ∧
    out'.fragment = r.fragment

variable {S}

theorem decryptRecord_sealed (hS : S.OpensSealed) (heap : (n : ℕ) → Block n) (rand : ℕ)
    (out : TLSPlaintext) {r : TLSPlaintext} (key : Block 32) (nonce : Block 12) (htype : r.type ≠ 0)
    (hlen : r.length.toNat ≤ 2 ^ 14) (hfrag : r.fragment.length = r.length.toNat) :
    ∃ bs record socket,
      encryptRecord S rand r key nonce = .ok bs ∧
      readRecord (ByteStream.whole bs) = .ok (record, socket) ∧
      decryptRecord S heap out record.toTLSPlaintext key nonce = (do
        let out := { out with type := r.type, legacyRecordVersion := [0x03, 0x03] }
        let out ← out.overwrite r.fragment
        return (0, { out with length := UInt16.ofNat r.fragment.length,
                              fragment := (heap r.fragment.length).val })) := by
  have hpad : rand % 101 < 101 := Nat.mod_lt _ (by norm_num)
  set inner := Rfc.innerPlaintext r.fragment r.type (rand % 101)
  set ct := (S.aeadEncrypt inner (Rfc.recordHeader 23 (inner.length + 16)) nonce key).val
  have hct : ct.length = r.fragment.length + 1 + rand % 101 + 16 := by
    rw [Block.length_val, Rfc.length_innerPlaintext]
  have hsize : ct.length < 256 ^ 2 := by omega
  have hopen : S.aeadDecrypt ct (Record.ofFragment 23 ct hsize).header nonce key = some inner := by
    rw [header_ofFragment, Block.length_val]
    exact hS _ _ _ _
  have hpending : (ByteStream.whole (Rfc.plaintextRecord 23 ct)).pending =
      (Record.ofFragment 23 ct hsize).encode ++ [] := by
    rw [encode_ofFragment, List.append_nil]
    rfl
  obtain ⟨socket, -, -, hread⟩ := readRecord_encode hpending (ByteStream.delivers_whole _)
  exact ⟨_, _, _, encryptRecord_eq S rand key nonce hfrag (by omega), hread,
    decryptRecord_eq S heap out htype hct hopen⟩

theorem RoundTrip.overwrite_eq (hS : S.OpensSealed) {heap : (n : ℕ) → Block n} {rand : ℕ}
    {out r : TLSPlaintext} {key : Block 32} {nonce : Block 12} (htype : r.type ≠ 0)
    (hlen : r.length.toNat ≤ 2 ^ 14) (hfrag : r.fragment.length = r.length.toNat)
    (h : RoundTrip S heap rand out r key nonce) :
    r.fragment = (heap r.fragment.length).val ∧
      ∃ out', ({ out with type := r.type, legacyRecordVersion := [0x03, 0x03] } :
        TLSPlaintext).overwrite r.fragment = .ok out' ∧ out'.type = r.type := by
  obtain ⟨bs, record, socket, out', hseal, hread, hopen, hout, -, -, hbuf⟩ := h
  obtain ⟨bs', record', socket', hseal', hread', hopen'⟩ :=
    decryptRecord_sealed hS heap rand out key nonce htype hlen hfrag
  rw [hseal] at hseal'
  obtain rfl : bs = bs' := Except.ok.inj hseal'
  rw [hread] at hread'
  obtain ⟨rfl, -⟩ := Prod.mk.inj (Except.ok.inj hread')
  rw [hopen] at hopen'
  obtain ⟨out'', hcopy, hlast⟩ := Checked.bind_eq_ok.mp hopen'.symm
  cases hlast
  exact ⟨hbuf.symm, out'', hcopy, hout⟩

theorem roundTrip_of_empty (hS : S.OpensSealed) (heap : (n : ℕ) → Block n) (rand : ℕ)
    (out : TLSPlaintext) {r : TLSPlaintext} (key : Block 32) (nonce : Block 12) (htype : r.type ≠ 0)
    (hfrag : r.fragment.length = r.length.toNat) (hempty : r.length = 0) :
    RoundTrip S heap rand out r key nonce := by
  obtain ⟨bs, record, socket, hseal, hread, hopen⟩ :=
    decryptRecord_sealed hS heap rand out key nonce htype (by simp [hempty]) hfrag
  have hnil : r.fragment = [] := by
    rw [← List.length_eq_zero_iff, hfrag, hempty]
    rfl
  rw [hnil] at hopen
  exact ⟨bs, record, socket, _, hseal, hread, hopen, rfl, rfl, hempty.symm,
    (List.length_eq_zero_iff.mp (heap 0).length_val).trans hnil.symm⟩

/-- A record comes back, whatever the struct and the heap hold, exactly when it
has no content. -/
theorem roundTrip_iff (hS : S.OpensSealed) (rand : ℕ) {r : TLSPlaintext} (key : Block 32)
    (nonce : Block 12) (htype : r.type ≠ 0) (hlen : r.length.toNat ≤ 2 ^ 14)
    (hfrag : r.fragment.length = r.length.toNat) :
    (∀ heap out, RoundTrip S heap rand out r key nonce) ↔ r.length = 0 := by
  constructor
  · intro h
    -- two heaps give two fragments, unless there is nothing to hold
    have heq (b : UInt8) : r.fragment = List.replicate r.fragment.length b :=
      (h (fun n => ⟨List.replicate n b, List.length_replicate⟩) r).overwrite_eq hS htype hlen hfrag |>.1
    have hall (b : UInt8) : ∀ a ∈ r.fragment, a = b := by
      intro a ha
      rw [heq b] at ha
      exact List.eq_of_mem_replicate ha
    have hnil : r.fragment = [] := by
      rw [List.eq_nil_iff_forall_not_mem]
      intro a ha
      have hne : (0 : UInt8) ≠ 1 := by decide
      exact hne ((hall 0 a ha).symm.trans (hall 1 a ha))
    rw [hnil] at hfrag
    exact UInt16.toNat_inj.mp hfrag.symm
  · intro hempty heap out
    exact roundTrip_of_empty hS heap rand out key nonce htype hfrag hempty

/-- A handshake record without content, under a key of zeros. -/
theorem roundTrip_sample :
    RoundTrip Sodium.reference Block.zero 7 ⟨0, [], 0, []⟩ ⟨handshakeType, [0x03, 0x03], 0, []⟩
      (Block.zero 32) (Block.zero 12) :=
  (roundTrip_iff Sodium.opensSealed_reference 7 _ _ (by decide) (by decide) rfl).mpr rfl _ _

/-- The EncryptedExtensions of the server: its first byte lands on the type. -/
theorem not_roundTrip_encryptedExtensions :
    ¬ ∃ heap out, RoundTrip Sodium.reference heap 7 out
      ⟨handshakeType, [0x03, 0x03], 6, nullEncryptedExtensions⟩ (Block.zero 32) (Block.zero 12) := by
  rintro ⟨heap, out, h⟩
  obtain ⟨-, out', hcopy, htype⟩ :=
    h.overwrite_eq Sodium.opensSealed_reference (by decide) (by decide) rfl
  cases hcopy
  have hne : encryptedExtensions ≠ handshakeType := by decide
  exact hne htype

end TLS13
