import TLS13.Hello

/-! The scan for the content type. It goes back over zeros without a look at where
the buffer starts, so it stays inside exactly when it meets a byte that is not
zero; a peer that holds the key can seal a plaintext without one. -/

namespace TLS13

open Lib

variable {S : Sodium}

/-- Opening takes off the 16 bytes of the tag. -/
def Sodium.OpensShorter (S : Sodium) : Prop :=
  ∀ (c ad : Bytes) (npub : Block 12) (k : Block 32) (m : Bytes),
    S.aeadDecrypt c ad npub k = some m → c.length = m.length + 16

theorem Sodium.opensShorter_reference : Sodium.reference.OpensShorter := by
  intro c ad npub k m h
  have hopen : Crypto.aeadOpen c ad npub k = some m := h
  unfold Crypto.aeadOpen at hopen
  by_cases hlen : c.length < 16
  · rw [if_pos hlen] at hopen
    cases hopen
  · rw [if_neg hlen] at hopen
    dsimp only at hopen
    split at hopen
    · cases hopen
      rw [Crypto.length_chacha20, List.length_take]
      omega
    · cases hopen

/-! ### The scan -/

/-- A plaintext is all zeros, or content, a type and padding. -/
theorem zeros_or_inner (buf : Bytes) :
    (∀ b ∈ buf, b = 0) ∨
      ∃ content type padding, type ≠ 0 ∧ buf = Rfc.innerPlaintext content type padding := by
  induction buf using List.reverseRecOn with
  | nil => exact .inl (by simp)
  | append_singleton buf b ih =>
    by_cases hb : b = 0
    · subst hb
      rcases ih with hzero | ⟨content, type, padding, htype, rfl⟩
      · left
        intro a ha
        rcases List.mem_append.mp ha with ha | ha
        · exact hzero a ha
        · exact List.mem_singleton.mp ha
      · refine .inr ⟨content, type, padding + 1, htype, ?_⟩
        simp [Rfc.innerPlaintext, List.replicate_succ']
    · exact .inr ⟨buf, b, 0, hb, rfl⟩

theorem paddingOffset_zeros {bs : Bytes} (h : ∀ b ∈ bs, b = 0) :
    paddingOffset bs = .error .overRead := by
  induction bs with
  | nil => rfl
  | cons b bs ih =>
    have hrest := ih fun a ha => h a (List.mem_cons_of_mem _ ha)
    rw [paddingOffset, if_pos (h b List.mem_cons_self), hrest]
    rfl

/-- Over zeros the scan leaves the buffer. -/
theorem decryptRecord_zeros (hS : S.OpensShorter) (heap : (n : ℕ) → Block n) (out : TLSPlaintext)
    {r : Record} {key : Block 32} {nonce : Block 12} {buf : Bytes}
    (hopen : S.aeadDecrypt r.fragment r.header nonce key = some buf) (h : ∀ b ∈ buf, b = 0) :
    decryptRecord S heap out r.toTLSPlaintext key nonce = .error .overRead := by
  have hsize : (buf.length : ℤ) = r.length.toNat - aeadTagLength := by
    rw [← r.fragment_size, hS _ _ _ _ _ hopen]
    push_cast
    ring
  have hscan : paddingOffset buf.reverse = .error .overRead :=
    paddingOffset_zeros fun b hb => h b (List.mem_reverse.mp hb)
  simp only [decryptRecord, processRecordHeaders_eq, r.readBytes_fragment, hopen, hsize, hscan,
    Checked.bind_ok, Checked.bind_error, ne_eq, not_true_eq_false, if_false]

/-- With a type in the plaintext every read is inside its buffer. -/
theorem decryptRecord_inner (hS : S.OpensShorter) (heap : (n : ℕ) → Block n) (out : TLSPlaintext)
    {r : Record} {key : Block 32} {nonce : Block 12} {content : Bytes} {type : UInt8} {padding : ℕ}
    (htype : type ≠ 0)
    (hopen : S.aeadDecrypt r.fragment r.header nonce key =
      some (Rfc.innerPlaintext content type padding)) :
    decryptRecord S heap out r.toTLSPlaintext key nonce ≠ .error .overRead := by
  have hct : r.fragment.length = content.length + 1 + padding + 16 := by
    rw [hS _ _ _ _ _ hopen, Rfc.length_innerPlaintext]
  rw [decryptRecord_eq S heap out htype hct hopen]
  unfold TLSPlaintext.overwrite
  split
  · intro h
    cases h
  · intro h
    cases h

/-- The scan over the plaintext `buf` of the record ends inside the buffer, and a
plaintext without a type is refused with a nonzero code and `*out` as it was. -/
def ScanSafe (S : Sodium) (heap : (n : ℕ) → Block n) (out : TLSPlaintext) (r : Record)
    (key : Block 32) (nonce : Block 12) (buf : Bytes) : Prop :=
  decryptRecord S heap out r.toTLSPlaintext key nonce ≠ .error .overRead ∧
    ((∀ b ∈ buf, b = 0) →
      ∃ rc, rc ≠ 0 ∧ decryptRecord S heap out r.toTLSPlaintext key nonce = .ok (rc, out))

/-- The scan is safe exactly when the plaintext has a byte that is not zero. -/
theorem scanSafe_iff (hS : S.OpensShorter) (heap : (n : ℕ) → Block n) (out : TLSPlaintext)
    {r : Record} {key : Block 32} {nonce : Block 12} {buf : Bytes}
    (hopen : S.aeadDecrypt r.fragment r.header nonce key = some buf) :
    ScanSafe S heap out r key nonce buf ↔ ∃ b ∈ buf, b ≠ 0 := by
  rcases zeros_or_inner buf with hzero | ⟨content, type, padding, htype, rfl⟩
  · have hscan := decryptRecord_zeros hS heap out hopen hzero
    constructor
    · intro h
      exact absurd hscan h.1
    · rintro ⟨b, hb, hne⟩
      exact absurd (hzero b hb) hne
  · have hmem : type ∈ Rfc.innerPlaintext content type padding :=
      List.mem_append_right _ List.mem_cons_self
    constructor
    · intro _
      exact ⟨type, hmem, htype⟩
    · intro _
      refine ⟨decryptRecord_inner hS heap out htype hopen, ?_⟩
      intro hzero
      exact absurd (hzero type hmem) htype

/-! ### Two plaintexts -/

/-- The fragment that seals `inner` under a key and nonce of zeros. -/
def sealedZeroKey (inner : Bytes) : Bytes :=
  (Crypto.aeadSeal inner (Rfc.recordHeader 23 (inner.length + 16)) (Block.zero 12)
    (Block.zero 32)).val

theorem length_sealedZeroKey {inner : Bytes} (h : inner.length + 16 < 256 ^ 2) :
    (sealedZeroKey inner).length < 256 ^ 2 := by
  rw [sealedZeroKey, Block.length_val]
  exact h

theorem open_sealedZeroKey {inner : Bytes} (h : inner.length + 16 < 256 ^ 2) :
    Sodium.reference.aeadDecrypt (sealedZeroKey inner)
      (Record.ofFragment 23 (sealedZeroKey inner) (length_sealedZeroKey h)).header (Block.zero 12)
      (Block.zero 32) = some inner := by
  rw [header_ofFragment, sealedZeroKey, Block.length_val]
  exact Sodium.opensSealed_reference _ _ _ _

/-- The scan goes back over two zeros to the type. -/
theorem scanSafe_sample :
    ScanSafe Sodium.reference Block.zero ⟨0, [], 0, []⟩
      (Record.ofFragment 23 (sealedZeroKey [7, handshakeType, 0, 0])
        (length_sealedZeroKey (by decide)))
      (Block.zero 32) (Block.zero 12) [7, handshakeType, 0, 0] :=
  (scanSafe_iff Sodium.opensShorter_reference _ _ (open_sealedZeroKey (by decide))).mpr
    ⟨handshakeType, by simp, by decide⟩

/-- A record of the 16 bytes of a tag: the first read of the scan is in front of
the buffer. -/
theorem not_scanSafe_empty :
    ¬ ScanSafe Sodium.reference Block.zero ⟨0, [], 0, []⟩
      (Record.ofFragment 23 (sealedZeroKey []) (length_sealedZeroKey (by decide)))
      (Block.zero 32) (Block.zero 12) [] := by
  intro h
  exact h.1 (decryptRecord_zeros Sodium.opensShorter_reference _ _ (open_sealedZeroKey (by decide))
    (by simp))

end TLS13
