import TLS13.Lib.Der
import TLS13.Rfc.Messages

/-! The messages that authenticate the server, sections 4.4.2 and 4.4.3 of RFC
8446: the certificate list, whose entries carry extensions of their own, and the
signature over the handshake. -/

namespace TLS13.Rfc

open Lib

/-! ### Certificate -/

structure CertificateEntry where
  certData : Bytes
  extensions : List Extension
  deriving DecidableEq

namespace CertificateEntry

def encode (e : CertificateEntry) : Bytes := vec 3 e.certData ++ vec 2 (encodeExtensions e.extensions)

theorem length_encode (e : CertificateEntry) :
    e.encode.length = 5 + e.certData.length + (encodeExtensions e.extensions).length := by
  simp [encode]
  omega

theorem encode_ne_nil (e : CertificateEntry) : e.encode ≠ [] := by
  apply List.ne_nil_of_length_pos
  rw [length_encode]
  omega

def decode : Decoder CertificateEntry := do
  let certData ← takeVec 3
  let block ← takeVec 2
  let extensions ← StateT.lift (decodeExtensions block)
  return ⟨certData, extensions⟩

theorem decodes (e : CertificateEntry) (hcert : e.certData.length < 256 ^ 3)
    (hext : (encodeExtensions e.extensions).length < 256 ^ 2) : Decodes decode e.encode e := by
  refine (decodes_takeVec hcert).bind ((decodes_takeVec hext).last ?_)
  rw [decodeExtensions_eq hext]
  rfl

theorem exact : Exact decode encode := by
  intro bs e rest h
  obtain ⟨certData, mid, hcert, h⟩ := run_bind_eq_some.mp h
  obtain ⟨block, mid', hblock, h⟩ := run_bind_eq_some.mp h
  obtain ⟨extensions, mid'', hext, h⟩ := run_bind_eq_some.mp h
  obtain ⟨rfl, rfl⟩ := run_pure_eq_some.mp h
  obtain ⟨hdecode, rfl⟩ := run_lift_eq_some.mp hext
  rw [exact_takeVec 3 hcert, exact_takeVec 2 hblock, encode_of_decodeExtensions hdecode, encode,
    List.append_assoc]

end CertificateEntry

structure Certificate where
  requestContext : Bytes
  entries : List CertificateEntry
  deriving DecidableEq

namespace Certificate

def list (c : Certificate) : Bytes := c.entries.flatMap CertificateEntry.encode

def encode (c : Certificate) : Bytes := vec 1 c.requestContext ++ vec 3 c.list

def decode : Decoder Certificate := do
  let requestContext ← takeVec 1
  let list ← takeVec 3
  let entries ← StateT.lift (decodeMany CertificateEntry.decode list.length list)
  return ⟨requestContext, entries⟩

theorem decodes (c : Certificate) (hcontext : c.requestContext.length < 256 ^ 1)
    (hlist : c.list.length < 256 ^ 3)
    (hext : ∀ e ∈ c.entries, (encodeExtensions e.extensions).length < 256 ^ 2) :
    Decodes decode c.encode c := by
  have hentries : decodeMany CertificateEntry.decode c.list.length c.list = some c.entries := by
    refine decodeMany_eq c.entries ?_ CertificateEntry.encode_ne_nil _ le_rfl
    intro e he
    have hle := length_encode_le CertificateEntry.encode he
    rw [CertificateEntry.length_encode] at hle
    unfold list at hlist
    exact e.decodes (by omega) (hext e he)
  refine (decodes_takeVec hcontext).bind ((decodes_takeVec hlist).last ?_)
  rw [hentries]
  rfl

theorem exact : Exact decode encode := by
  intro bs c rest h
  obtain ⟨requestContext, mid, hcontext, h⟩ := run_bind_eq_some.mp h
  obtain ⟨list, mid', hlist, h⟩ := run_bind_eq_some.mp h
  obtain ⟨entries, mid'', hentries, h⟩ := run_bind_eq_some.mp h
  obtain ⟨rfl, rfl⟩ := run_pure_eq_some.mp h
  obtain ⟨hdecode, rfl⟩ := run_lift_eq_some.mp hentries
  have heq := decodeMany_exact CertificateEntry.exact _ hdecode
  rw [exact_takeVec 1 hcontext, exact_takeVec 3 hlist, heq, encode, Certificate.list,
    List.append_assoc]

end Certificate

/-! ### CertificateVerify -/

structure CertificateVerify where
  algorithm : ℕ
  signature : Bytes
  deriving DecidableEq

namespace CertificateVerify

def encode (cv : CertificateVerify) : Bytes := be 2 cv.algorithm ++ vec 2 cv.signature

def decode : Decoder CertificateVerify := do
  let algorithm ← number 2
  let signature ← takeVec 2
  return ⟨algorithm, signature⟩

theorem decodes (cv : CertificateVerify) (halgorithm : cv.algorithm < 256 ^ 2)
    (hsignature : cv.signature.length < 256 ^ 2) : Decodes decode cv.encode cv :=
  (decodes_number halgorithm).bind ((decodes_takeVec hsignature).last rfl)

end CertificateVerify

/-- What the server signs: spaces, the context string and the transcript hash. -/
def signatureContent (transcriptHash : Block 32) : Bytes :=
  List.replicate 64 0x20 ++
    ascii ['T', 'L', 'S', ' ', '1', '.', '3', ',', ' ', 's', 'e', 'r', 'v', 'e', 'r', ' ', 'C', 'e',
      'r', 't', 'i', 'f', 'i', 'c', 'a', 't', 'e', 'V', 'e', 'r', 'i', 'f', 'y'] ++
    [0] ++ transcriptHash.val

/-- The bytes are the `ECDSA-Sig-Value` of the numbers, a SEQUENCE of two INTEGERs. -/
def IsEcdsaSigValue (r s : ℕ) (e : Bytes) : Prop :=
  ∃ er es, Der.IsInteger r er ∧ Der.IsInteger s es ∧ Der.IsElement 0x30 (er ++ es) e

theorem IsEcdsaSigValue.unique {r s : ℕ} {e e' : Bytes} (h : IsEcdsaSigValue r s e)
    (h' : IsEcdsaSigValue r s e') : e = e' := by
  obtain ⟨er, es, hr, hs, he⟩ := h
  obtain ⟨er', es', hr', hs', he'⟩ := h'
  obtain rfl := hr.unique hr'
  obtain rfl := hs.unique hs'
  exact he.unique he'

end TLS13.Rfc
