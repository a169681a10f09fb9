import TLS13.Blocks
import TLS13.Wrappers.Certificate

/-! The buffers of certificate messages. `process_certificate` takes the size of its
buffer from one pass over the entries and fills it by another, which asks each entry
for a buffer of its own; the two passes count the same bytes, and the length field in
front of the list counts them too. -/

namespace TLS13

open Lib

/-! ### Messages as the structs hold them -/

/-- As many bytes of certificate as are stated, and extensions as they are stated. -/
structure CertificateEntry.WellFormed (ce : CertificateEntry) : Prop where
  certData : ce.certData.length = ce.certDataLength.toNat
  extensions : ce.extensions.WellFormed

/-- A context and a chain as long as they are stated, of well-formed entries. -/
structure Certificate.WellFormed (c : Certificate) : Prop where
  context : c.certificateRequestContext.length = c.certificateRequestContextLength.toNat
  count : c.certificateList.length = c.certificateList.certs.length
  entries : ∀ ce ∈ c.certificateList.certs, ce.WellFormed

/-- The bytes that an entry takes: two lengths, the certificate and the extensions. -/
def CertificateEntry.size (ce : CertificateEntry) : ℕ :=
  3 + ce.certDataLength.toNat + 2 + ce.extensions.size

/-- The bytes that the entries of a chain take. -/
def CertificateChain.size (cc : CertificateChain) : ℕ := (cc.certs.map CertificateEntry.size).sum

/-- The entry as the wire grammar has it. -/
def CertificateEntry.toRfc (ce : CertificateEntry) : Rfc.CertificateEntry :=
  ⟨ce.certData, ce.extensions.toRfc⟩

/-- The message as the wire grammar has it. -/
def Certificate.toRfc (c : Certificate) : Rfc.Certificate :=
  ⟨c.certificateRequestContext, c.certificateList.certs.map CertificateEntry.toRfc⟩

theorem CertificateEntry.WellFormed.ofRfc_toRfc {ce : CertificateEntry} (h : ce.WellFormed) :
    CertificateEntry.ofRfc ce.toRfc = ce := by
  simp only [CertificateEntry.ofRfc, CertificateEntry.toRfc, h.certData, h.extensions.ofRfc_toRfc,
    UInt32.ofNat_toNat]

theorem CertificateEntry.WellFormed.size_eq {ce : CertificateEntry} (h : ce.WellFormed) :
    ce.size = ce.toRfc.encode.length := by
  rw [Rfc.CertificateEntry.length_encode]
  simp only [CertificateEntry.size, CertificateEntry.toRfc, h.extensions.size_eq, h.certData]
  omega

namespace Certificate.WellFormed

variable {c : Certificate}

theorem ofRfc_toRfc (h : c.WellFormed) : Certificate.ofRfc c.toRfc c.certificateListLength = c := by
  have hcerts : c.toRfc.entries.map CertificateEntry.ofRfc = c.certificateList.certs := by
    rw [Certificate.toRfc, List.map_map]
    refine (List.map_congr_left ?_).trans (List.map_id _)
    intro ce hce
    exact (h.entries ce hce).ofRfc_toRfc
  have hlength : (c.toRfc.entries.length : ℤ) = c.certificateList.length := by
    rw [h.count, Certificate.toRfc, List.length_map]
  rw [Certificate.ofRfc, hcerts, hlength]
  simp only [Certificate.toRfc, h.context, UInt8.ofNat_toNat]

theorem size_eq (h : c.WellFormed) : c.certificateList.size = c.toRfc.list.length := by
  rw [Rfc.Certificate.list, List.length_flatMap, Certificate.toRfc, List.map_map,
    CertificateChain.size]
  congr 1
  apply List.map_congr_left
  intro ce hce
  exact (h.entries ce hce).size_eq

/-- A short list leaves room for every length inside it. -/
theorem fits (h : c.WellFormed)
    (hext : ∀ ce ∈ c.certificateList.certs, ce.extensions.size ≤ 65535)
    (hsize : c.certificateList.size < 2 ^ 24) : FitsCertificate c.toRfc := by
  rw [h.size_eq] at hsize
  have hentry {e : Rfc.CertificateEntry} (he : e ∈ c.toRfc.entries) :
      ∃ ce ∈ c.certificateList.certs, ce.toRfc = e := List.mem_map.mp he
  refine ⟨?_, ?_, ?_, ?_, hsize⟩
  · have hlt := c.certificateRequestContextLength.toNat_lt
    rw [Certificate.toRfc, h.context]
    omega
  · intro e he
    have hle := Rfc.length_encode_le Rfc.CertificateEntry.encode he
    rw [Rfc.CertificateEntry.length_encode] at hle
    unfold Rfc.Certificate.list at hsize
    omega
  · intro e he
    obtain ⟨ce, hce, rfl⟩ := hentry he
    have hle := hext ce hce
    rwa [(h.entries ce hce).extensions.size_eq] at hle
  · intro e he
    obtain ⟨ce, hce, rfl⟩ := hentry he
    have hlt := ce.extensions.length.toNat_lt
    rw [CertificateEntry.toRfc, (h.entries ce hce).extensions.length_toRfc]
    omega

end Certificate.WellFormed

/-! ### How the buffers are filled -/

/-- The outputs of the entries and the buffer of the message. -/
structure FillsBuffers (c : Certificate) (outs : List Bytes) (buf : Bytes) : Prop where
  /-- Each entry fills a buffer of its own length. -/
  entries : List.Forall₂ (fun ce out => processCertificateEntry ce = .ok out ∧ out.length = ce.size)
    c.certificateList.certs outs
  chainLength : certificateChainLength c.certificateList = .ok (outs.map List.length).sum
  /-- No write goes past the end of the buffer, and no byte of it is left unwritten. -/
  filled : processCertificate c = .ok buf
  size : buf.length =
    1 + c.certificateRequestContextLength.toNat + 3 + (outs.map List.length).sum
  /-- Behind the length of the list are the outputs, as many bytes as it says. -/
  list : buf.drop (1 + c.certificateRequestContextLength.toNat + 3) = outs.flatten
  listLength : ∃ n, getUint24 buf (1 + c.certificateRequestContextLength.toNat) = .ok n ∧
    n.toNat = (buf.drop (1 + c.certificateRequestContextLength.toNat + 3)).length

section Outputs

variable {c : Certificate} (h : c.WellFormed)

include h

/-- The outputs of the entries, as the functions write them. -/
theorem forall₂_processCertificateEntry (hfits : FitsCertificate c.toRfc) :
    List.Forall₂ (fun ce out => processCertificateEntry ce = .ok out ∧ out.length = ce.size)
      c.certificateList.certs (c.certificateList.certs.map fun ce => writtenEntry ce.toRfc) := by
  rw [List.forall₂_map_right_iff, List.forall₂_same]
  intro ce hce
  have hwf := h.entries ce hce
  have hmem : ce.toRfc ∈ c.toRfc.entries := List.mem_map_of_mem hce
  have hwritten := processCertificateEntry_ofRfc (hfits.certData _ hmem) (hfits.extensions _ hmem)
    (hfits.count _ hmem)
  rw [hwf.ofRfc_toRfc] at hwritten
  refine ⟨hwritten, ?_⟩
  rw [hwf.size_eq]
  exact length_writtenEntry ce.toRfc

theorem sum_length_writtenEntry :
    ((c.certificateList.certs.map fun ce => writtenEntry ce.toRfc).map List.length).sum =
      c.certificateList.size := by
  rw [CertificateChain.size, List.map_map]
  congr 1
  apply List.map_congr_left
  intro ce hce
  rw [(h.entries ce hce).size_eq]
  exact length_writtenEntry ce.toRfc

theorem certificateChainLength_wellFormed (hfits : FitsCertificate c.toRfc) :
    certificateChainLength c.certificateList = .ok c.certificateList.size := by
  have hchain := certificateChainLength_ofRfc hfits c.certificateListLength
  rwa [h.ofRfc_toRfc, ← h.size_eq] at hchain

/-- The message is its context, the size of its list and the outputs of the entries. -/
theorem processCertificate_wellFormed (hfits : FitsCertificate c.toRfc) :
    processCertificate c =
      .ok (vec 1 c.certificateRequestContext ++ (be 3 c.certificateList.size ++
        (c.certificateList.certs.map fun ce => writtenEntry ce.toRfc).flatten)) := by
  have hwritten := processCertificate_ofRfc hfits c.certificateListLength
  rw [h.ofRfc_toRfc, ← h.size_eq] at hwritten
  rw [hwritten, Certificate.toRfc, List.flatMap_def, List.map_map]
  rfl

end Outputs

/-- A message whose lengths fit fills its buffers. -/
theorem fillsBuffers_of_wellFormed {c : Certificate} (h : c.WellFormed)
    (hext : ∀ ce ∈ c.certificateList.certs, ce.extensions.size ≤ 65535)
    (hsize : c.certificateList.size < 2 ^ 24) : ∃ outs buf, FillsBuffers c outs buf := by
  have hfits := h.fits hext hsize
  have hsum := sum_length_writtenEntry h
  have hwritten := processCertificate_wellFormed h hfits
  set outs := c.certificateList.certs.map fun ce => writtenEntry ce.toRfc
  have hflatten : outs.flatten.length = c.certificateList.size := by
    rw [List.length_flatten, hsum]
  have hcontext : (vec 1 c.certificateRequestContext).length =
      1 + c.certificateRequestContextLength.toNat := by
    rw [length_vec, h.context]
  obtain ⟨n, hn⟩ : ∃ n : UInt32, n.toNat = c.certificateList.size :=
    ⟨UInt32.ofNat c.certificateList.size, toNat_ofNat_uint32 (by omega)⟩
  rw [← hn] at hwritten
  have hfield : (vec 1 c.certificateRequestContext ++ (be 3 n.toNat ++ outs.flatten)).drop
      (1 + c.certificateRequestContextLength.toNat) = be 3 n.toNat ++ outs.flatten := by
    rw [← hcontext, List.drop_left]
  have hbehind := drop_past hfield (n := 3) (by simp)
  refine ⟨outs, _, forall₂_processCertificateEntry h hfits, ?_, hwritten, ?_, hbehind, n,
    getUint24_eq (by omega) hfield, ?_⟩
  · rw [certificateChainLength_wellFormed h hfits, hsum]
  · rw [List.length_append, List.length_append, length_be, hcontext, hflatten, hsum]
    omega
  · rw [hbehind, hflatten, hn]

/-- Two certificates, one of them with an extension, behind a context of one byte. -/
theorem fillsBuffers_sample :
    ∃ outs buf, FillsBuffers ⟨1, [9], 0, ⟨2, [⟨1, [0x30], ⟨0, []⟩⟩,
      ⟨2, [0x30, 0x31], ⟨1, [⟨5, 1, [7]⟩]⟩⟩]⟩⟩ outs buf := by
  refine fillsBuffers_of_wellFormed ⟨rfl, rfl, ?_⟩ (by decide) (by decide)
  intro ce hce
  fin_cases hce
  · exact ⟨rfl, rfl, by decide⟩
  · exact ⟨rfl, rfl, by decide⟩

end TLS13
