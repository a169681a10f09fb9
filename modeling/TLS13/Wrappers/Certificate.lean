import TLS13.Rfc.Authentication
import TLS13.Wrappers.Extensions

/-! The certificate list, `wrappers/Certificate.c`. All lengths are written by the
helpers but one: the length of an entry's extensions is copied out of a variable
as it stands in memory, so it reads right only where its two bytes are equal. -/

namespace TLS13

open Lib

/-! ### Encoding -/

/-- The certificates a loop up to `cc.length` visits. -/
def CertificateChain.entries (cc : CertificateChain) : Checked (List CertificateEntry) :=
  if cc.length.toNat ≤ cc.certs.length then .ok (cc.certs.take cc.length.toNat)
  else .error .overRead

/-- What the turns of the loop of `certificate_chain_length` add. -/
def sumEntryLengths : List CertificateEntry → Checked ℕ
  | [] => return 0
  | ce :: rest => do
    let exLength ← extensionsLength ce.extensions
    let len ← sumEntryLengths rest
    return 3 + ce.certDataLength.toNat + 2 + exLength + len

def certificateChainLength (cc : CertificateChain) : Checked ℕ := do
  let certs ← cc.entries
  sumEntryLengths certs

/-- `ex_length` is copied by `memcpy`, in the order of the host. -/
def processCertificateEntry (ce : CertificateEntry) : Checked Bytes := do
  let exLength := UInt16.ofNat (← extensionsLength ce.extensions)
  let len := 3 + ce.certDataLength + 2 + exLength.toUInt32
  let size ← bufferSize len .assertFailed
  let certData ← readBytes ce.certData 0 ce.certDataLength.toNat
  let exArr ← (if exLength ≠ 0 then processExtensions ce.extensions else .ok [] : Checked Bytes)
  fill size
    (processUint24 .little ce.certDataLength ++ certData ++ storeUint16 exLength ++ exArr)

/-- The bytes that the loop over the certificates copies. -/
def processEntries : List CertificateEntry → Checked Bytes
  | [] => return []
  | ce :: rest => do
    let certArr ← processCertificateEntry ce
    let restArr ← processEntries rest
    return certArr ++ restArr

/-- The stored length of the list is computed anew before it is read. -/
def processCertificate (c : Certificate) : Checked Bytes := do
  let certificateListLength := UInt32.ofNat (← certificateChainLength c.certificateList)
  let len := 1 + c.certificateRequestContextLength.toUInt32 + 3 + certificateListLength
  let size ← bufferSize len .assertFailed
  let context ←
    (if 0 < c.certificateRequestContextLength then
      readBytes c.certificateRequestContext 0 c.certificateRequestContextLength.toNat
    else .ok [] : Checked Bytes)
  let certs ← c.certificateList.entries
  let list ← processEntries certs
  fill size
    ([c.certificateRequestContextLength] ++ context ++ processUint24 .little certificateListLength ++
      list)

/-- `create_certificate`, given the contents of the file. -/
def createCertificate (contents : Bytes) : Checked Certificate := do
  let ce : CertificateEntry :=
    { certDataLength := UInt32.ofNat contents.length
      certData := contents
      extensions := ⟨0, []⟩ }
  let cc : CertificateChain := { length := 1, certs := [ce] }
  let length ← certificateChainLength cc
  return {
    certificateRequestContextLength := 0
    certificateRequestContext := []
    certificateListLength := UInt32.ofNat length + 2
    certificateList := cc }

/-! ### What is written for a message of the grammar -/

def CertificateEntry.ofRfc (e : Rfc.CertificateEntry) : CertificateEntry :=
  ⟨UInt32.ofNat e.certData.length, e.certData, ExtensionArray.ofRfc e.extensions⟩

/-- The struct that holds a certificate message, with any value in the length that
is computed anew. -/
def Certificate.ofRfc (c : Rfc.Certificate) (certificateListLength : UInt32) : Certificate :=
  ⟨UInt8.ofNat c.requestContext.length, c.requestContext, certificateListLength,
    ⟨c.entries.length, c.entries.map CertificateEntry.ofRfc⟩⟩

/-- The message fits into the fields of the structs and of the encoding. -/
structure FitsCertificate (c : Rfc.Certificate) : Prop where
  context : c.requestContext.length ≤ 255
  certData : ∀ e ∈ c.entries, e.certData.length < 2 ^ 24
  extensions : ∀ e ∈ c.entries, (Rfc.encodeExtensions e.extensions).length ≤ 65535
  count : ∀ e ∈ c.entries, e.extensions.length ≤ 255
  list : c.list.length < 2 ^ 24

/-- The bytes of an entry as they are written. -/
def writtenEntry (e : Rfc.CertificateEntry) : Bytes :=
  vec 3 e.certData ++ (storeUint16 (UInt16.ofNat (Rfc.encodeExtensions e.extensions).length) ++
    Rfc.encodeExtensions e.extensions)

theorem length_writtenEntry (e : Rfc.CertificateEntry) :
    (writtenEntry e).length = e.encode.length := by
  simp [writtenEntry, storeUint16, Rfc.CertificateEntry.encode]
  omega

/-- An entry is written as the grammar has it exactly when the length of its
extensions has two equal bytes. -/
theorem writtenEntry_eq_encode_iff {e : Rfc.CertificateEntry}
    (h : (Rfc.encodeExtensions e.extensions).length ≤ 65535) :
    writtenEntry e = e.encode ↔ 257 ∣ (Rfc.encodeExtensions e.extensions).length := by
  rw [writtenEntry, Rfc.CertificateEntry.encode, List.append_cancel_left_eq, vec,
    List.append_cancel_right_eq]
  exact storeUint16_eq_be_iff (by omega)

theorem sumEntryLengths_ofRfc {es : List Rfc.CertificateEntry}
    (hcert : ∀ e ∈ es, e.certData.length < 2 ^ 24)
    (hext : ∀ e ∈ es, (Rfc.encodeExtensions e.extensions).length ≤ 65535)
    (hcount : ∀ e ∈ es, e.extensions.length ≤ 255) :
    sumEntryLengths (es.map CertificateEntry.ofRfc) =
      .ok (es.flatMap Rfc.CertificateEntry.encode).length := by
  induction es with
  | nil => rfl
  | cons e es ih =>
    simp only [List.forall_mem_cons] at hcert hext hcount
    have hrest := ih hcert.2 hext.2 hcount.2
    have hlength : extensionsLength (CertificateEntry.ofRfc e).extensions =
        .ok (Rfc.encodeExtensions e.extensions).length :=
      extensionsLength_ofRfc (by omega) (by omega)
    have hdata : (CertificateEntry.ofRfc e).certDataLength.toNat = e.certData.length :=
      toNat_ofNat_uint32 (by omega)
    simp only [List.map_cons, sumEntryLengths, hlength, hrest, hdata, Checked.bind_ok,
      Checked.pure_eq, List.flatMap_cons, List.length_append, Rfc.CertificateEntry.length_encode]
    congr 1
    omega

theorem processCertificateEntry_ofRfc {e : Rfc.CertificateEntry}
    (hcert : e.certData.length < 2 ^ 24)
    (hext : (Rfc.encodeExtensions e.extensions).length ≤ 65535)
    (hcount : e.extensions.length ≤ 255) :
    processCertificateEntry (CertificateEntry.ofRfc e) = .ok (writtenEntry e) := by
  have hlength : extensionsLength (CertificateEntry.ofRfc e).extensions =
      .ok (Rfc.encodeExtensions e.extensions).length :=
    extensionsLength_ofRfc (by omega) (by omega)
  have hblock : processExtensions (CertificateEntry.ofRfc e).extensions =
      .ok (Rfc.encodeExtensions e.extensions) :=
    processExtensions_ofRfc (by omega) (by omega)
  have hdata : (UInt32.ofNat e.certData.length).toNat = e.certData.length :=
    toNat_ofNat_uint32 (by omega)
  have hread : readBytes (CertificateEntry.ofRfc e).certData 0
      (CertificateEntry.ofRfc e).certDataLength.toNat = .ok e.certData := by
    show readBytes e.certData 0 (UInt32.ofNat e.certData.length).toNat = .ok e.certData
    rw [hdata]
    exact readBytes_self _
  -- an empty block is not asked for
  have hexArr : (if UInt16.ofNat (Rfc.encodeExtensions e.extensions).length ≠ 0 then
      processExtensions (CertificateEntry.ofRfc e).extensions else .ok []) =
        .ok (Rfc.encodeExtensions e.extensions) := by
    refine Checked.ite_eq_ok hblock ?_
    intro hzero
    have hnat := congrArg UInt16.toNat (not_not.mp hzero)
    rw [toNat_ofNat_uint16 (by omega)] at hnat
    exact List.length_eq_zero_iff.mp hnat
  have hsize : (3 + (CertificateEntry.ofRfc e).certDataLength + 2 +
      (UInt16.ofNat (Rfc.encodeExtensions e.extensions).length).toUInt32).toNat =
        5 + e.certData.length + (Rfc.encodeExtensions e.extensions).length := by
    have hwide := toNat_ofNat_uint16 (show (Rfc.encodeExtensions e.extensions).length < 256 ^ 2 by
      omega)
    have h3 : (3 : UInt32).toNat = 3 := rfl
    have h2 : (2 : UInt32).toNat = 2 := rfl
    simp only [CertificateEntry.ofRfc, UInt32.toNat_add, UInt16.toNat_toUInt32, hdata, hwide, h3, h2]
    omega
  simp only [processCertificateEntry, hlength, hread, hexArr,
    bufferSize_eq .assertFailed hsize (by omega), Checked.bind_ok]
  rw [fill_eq]
  · simp [writtenEntry, vec, processUint24_little, CertificateEntry.ofRfc, hdata]
  · simp [processUint24_little, storeUint16]
    omega

theorem processEntries_ofRfc {es : List Rfc.CertificateEntry}
    (hcert : ∀ e ∈ es, e.certData.length < 2 ^ 24)
    (hext : ∀ e ∈ es, (Rfc.encodeExtensions e.extensions).length ≤ 65535)
    (hcount : ∀ e ∈ es, e.extensions.length ≤ 255) :
    processEntries (es.map CertificateEntry.ofRfc) = .ok (es.flatMap writtenEntry) := by
  induction es with
  | nil => rfl
  | cons e es ih =>
    simp only [List.forall_mem_cons] at hcert hext hcount
    have hentry := processCertificateEntry_ofRfc hcert.1 hext.1 hcount.1
    have hrest := ih hcert.2 hext.2 hcount.2
    simp only [List.map_cons, processEntries, hentry, hrest, Checked.bind_ok, Checked.pure_eq,
      List.flatMap_cons]

theorem length_flatMap_writtenEntry (es : List Rfc.CertificateEntry) :
    (es.flatMap writtenEntry).length = (es.flatMap Rfc.CertificateEntry.encode).length := by
  simp only [List.length_flatMap, length_writtenEntry]

theorem chainEntries_ofRfc (c : Rfc.Certificate) (certificateListLength : UInt32) :
    (Certificate.ofRfc c certificateListLength).certificateList.entries =
      .ok (c.entries.map CertificateEntry.ofRfc) := by
  have hsize : ((c.entries.length : ℤ)).toNat = c.entries.length := Int.toNat_natCast _
  simp only [CertificateChain.entries, Certificate.ofRfc, hsize, List.length_map, le_refl, if_true]
  rw [List.take_of_length_le (by simp)]

theorem certificateChainLength_ofRfc {c : Rfc.Certificate} (h : FitsCertificate c)
    (certificateListLength : UInt32) :
    certificateChainLength (Certificate.ofRfc c certificateListLength).certificateList =
      .ok c.list.length := by
  rw [certificateChainLength, chainEntries_ofRfc]
  exact sumEntryLengths_ofRfc h.certData h.extensions h.count

/-- The message as it is written: the fields of the grammar around the entries. -/
theorem processCertificate_ofRfc {c : Rfc.Certificate} (h : FitsCertificate c)
    (certificateListLength : UInt32) :
    processCertificate (Certificate.ofRfc c certificateListLength) =
      .ok (vec 1 c.requestContext ++ (be 3 c.list.length ++ c.entries.flatMap writtenEntry)) := by
  have hcontext := h.context
  have hlist := h.list
  have hentries := chainEntries_ofRfc c certificateListLength
  have hchain := certificateChainLength_ofRfc h certificateListLength
  have hwritten := processEntries_ofRfc h.certData h.extensions h.count
  have hlength8 : (Certificate.ofRfc c certificateListLength).certificateRequestContextLength.toNat =
      c.requestContext.length := toNat_ofNat_uint8 (by omega)
  have hread : readBytes (Certificate.ofRfc c certificateListLength).certificateRequestContext 0
      c.requestContext.length = .ok c.requestContext := readBytes_self _
  -- an empty context is not copied
  have hcopy : (if 0 < (Certificate.ofRfc c certificateListLength).certificateRequestContextLength
      then readBytes (Certificate.ofRfc c certificateListLength).certificateRequestContext 0
        (Certificate.ofRfc c certificateListLength).certificateRequestContextLength.toNat
      else .ok [] : Checked Bytes) = .ok c.requestContext := by
    rw [hlength8]
    refine Checked.ite_eq_ok hread ?_
    intro hzero
    rw [UInt8.lt_iff_toNat_lt, hlength8] at hzero
    exact List.length_eq_zero_iff.mp (Nat.eq_zero_of_not_pos hzero)
  have hlength24 : (UInt32.ofNat c.list.length).toNat = c.list.length :=
    toNat_ofNat_uint32 (by omega)
  have hsize : (1 + (Certificate.ofRfc c certificateListLength).certificateRequestContextLength.toUInt32 +
      3 + UInt32.ofNat c.list.length).toNat = 4 + c.requestContext.length + c.list.length := by
    have h1 : (1 : UInt32).toNat = 1 := rfl
    have h3 : (3 : UInt32).toNat = 3 := rfl
    simp only [UInt32.toNat_add, UInt8.toNat_toUInt32, hlength8, hlength24, h1, h3]
    omega
  simp only [processCertificate, hchain, hcopy, hentries, hwritten,
    bufferSize_eq .assertFailed hsize (by omega), Checked.bind_ok]
  rw [fill_eq]
  · have hbyte : [(Certificate.ofRfc c certificateListLength).certificateRequestContextLength] =
        be 1 c.requestContext.length := by simp [be, Certificate.ofRfc]
    rw [hbyte, processUint24_little, hlength24, vec, List.append_assoc]
  · have hsum := length_flatMap_writtenEntry c.entries
    rw [Rfc.Certificate.list]
    simp only [List.length_append, List.length_singleton, processUint24_little, length_be, hsum]
    omega

/-! ### Reading it back -/

/-- The message is encoded, and its encoding decodes to the message. -/
def DecodesBack (c : Rfc.Certificate) (certificateListLength : UInt32) : Prop :=
  ∃ bs, processCertificate (Certificate.ofRfc c certificateListLength) = .ok bs ∧
    decodeAll Rfc.Certificate.decode bs = some c

theorem decodesBack_of_written {c : Rfc.Certificate} (h : FitsCertificate c)
    (certificateListLength : UInt32)
    (hwritten : ∀ e ∈ c.entries, writtenEntry e = e.encode) :
    DecodesBack c certificateListLength := by
  have hext (e : Rfc.CertificateEntry) (he : e ∈ c.entries) :
      (Rfc.encodeExtensions e.extensions).length < 256 ^ 2 := by
    have := h.extensions e he
    omega
  have hcontext := h.context
  have hlist := h.list
  refine ⟨_, processCertificate_ofRfc h certificateListLength, ?_⟩
  rw [(flatMap_eq_iff length_writtenEntry).mpr hwritten]
  exact decodeAll_eq (c.decodes (by omega) (by omega) hext)

/-- The server's own certificate, which has no extensions, is encoded right. -/
theorem decodesBack_createCertificate {contents : Bytes} (h : contents.length < 2 ^ 24 - 5) :
    ∃ n, createCertificate contents = .ok (Certificate.ofRfc ⟨[], [⟨contents, []⟩]⟩ n) ∧
      DecodesBack ⟨[], [⟨contents, []⟩]⟩ n := by
  set c : Rfc.Certificate := ⟨[], [⟨contents, []⟩]⟩
  have hlist : c.list.length < 2 ^ 24 := by
    simp [c, Rfc.Certificate.list, Rfc.CertificateEntry.length_encode, Rfc.encodeExtensions]
    omega
  have hfits : FitsCertificate c := by
    refine ⟨Nat.zero_le _, ?_, ?_, ?_, hlist⟩ <;> intro e he <;>
      obtain rfl := List.mem_singleton.mp he
    · exact h.trans_le (Nat.sub_le _ _)
    · exact Nat.zero_le _
    · exact Nat.zero_le _
  have hchain : certificateChainLength ⟨1, [⟨UInt32.ofNat contents.length, contents, ⟨0, []⟩⟩]⟩ =
      .ok c.list.length := certificateChainLength_ofRfc hfits 0
  refine ⟨UInt32.ofNat c.list.length + 2, ?_, decodesBack_of_written hfits _ ?_⟩
  · simp only [createCertificate, hchain, Checked.bind_ok]
    rfl
  · intro e he
    obtain rfl := List.mem_singleton.mp he
    exact (writtenEntry_eq_encode_iff (Nat.zero_le _)).mpr (Nat.dvd_zero 257)

theorem written_of_decodesBack {c : Rfc.Certificate} (h : FitsCertificate c)
    {certificateListLength : UInt32} (hback : DecodesBack c certificateListLength) :
    ∀ e ∈ c.entries, writtenEntry e = e.encode := by
  obtain ⟨bs, hbs, hdecode⟩ := hback
  rw [processCertificate_ofRfc h] at hbs
  cases hbs
  have hencode := decodeAll_exact Rfc.Certificate.exact hdecode
  rw [Rfc.Certificate.encode, List.append_cancel_left_eq, vec, List.append_cancel_left_eq] at hencode
  exact (flatMap_eq_iff length_writtenEntry).mp hencode

/-- A message that fits decodes to itself exactly when the length of the extensions
of each entry has two equal bytes. -/
theorem decodesBack_iff {c : Rfc.Certificate} (h : FitsCertificate c)
    (certificateListLength : UInt32) :
    DecodesBack c certificateListLength ↔
      ∀ e ∈ c.entries, 257 ∣ (Rfc.encodeExtensions e.extensions).length := by
  constructor
  · intro hback e he
    exact (writtenEntry_eq_encode_iff (h.extensions e he)).mp (written_of_decodesBack h hback e he)
  · intro hdvd
    refine decodesBack_of_written h certificateListLength ?_
    intro e he
    exact (writtenEntry_eq_encode_iff (h.extensions e he)).mpr (hdvd e he)

/-- An extension whose block is 257 bytes long. -/
def longExtension : Rfc.Extension := ⟨5, List.replicate 253 0⟩

theorem length_encodeExtensions_longExtension :
    (Rfc.encodeExtensions [longExtension]).length = 257 := by
  rw [Rfc.encodeExtensions, List.flatMap_singleton, Rfc.Extension.length_encode, longExtension,
    List.length_replicate]

/-- A chain of two certificates, the second of them with the long extension. -/
theorem decodesBack_sample : DecodesBack ⟨[], [⟨[0x30], []⟩, ⟨[0x31], [longExtension]⟩]⟩ 7 := by
  have hlength := length_encodeExtensions_longExtension
  have hlist : Rfc.Certificate.list ⟨[], [⟨[0x30], []⟩, ⟨[0x31], [longExtension]⟩]⟩ =
      Rfc.CertificateEntry.encode ⟨[0x30], []⟩ ++
        Rfc.CertificateEntry.encode ⟨[0x31], [longExtension]⟩ := by
    simp only [Rfc.Certificate.list, List.flatMap_cons, List.flatMap_nil, List.append_nil]
  refine (decodesBack_iff ⟨by decide, by decide, ?_, by decide, ?_⟩ 7).mpr ?_
  · refine List.forall_mem_cons.mpr ⟨by decide, List.forall_mem_singleton.mpr ?_⟩
    exact hlength.trans_le (by decide)
  · rw [hlist, List.length_append, Rfc.CertificateEntry.length_encode,
      Rfc.CertificateEntry.length_encode, hlength]
    decide
  · refine List.forall_mem_cons.mpr ⟨by decide, List.forall_mem_singleton.mpr ?_⟩
    exact dvd_of_eq hlength.symm

/-- One empty extension of type 5: its four bytes are announced as 1024. -/
theorem not_decodesBack_extension :
    FitsCertificate ⟨[], [⟨[0x30], [⟨5, []⟩]⟩]⟩ ∧ ¬ DecodesBack ⟨[], [⟨[0x30], [⟨5, []⟩]⟩]⟩ 0 := by
  have hfits : FitsCertificate ⟨[], [⟨[0x30], [⟨5, []⟩]⟩]⟩ :=
    ⟨by decide, by decide, by decide, by decide, by decide⟩
  refine ⟨hfits, ?_⟩
  intro hback
  have hentry := written_of_decodesBack hfits hback _ List.mem_cons_self
  exact absurd hentry (by decide)

end TLS13
