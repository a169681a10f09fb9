import TLS13.Lib.Codec

/-! The wire grammar of the messages the server reads and writes: handshake
messages, extensions, client key shares, ClientHello and ServerHello. A message
that the grammar admits carries the bounds of its length fields, so its encoding
is well formed by construction; the decoders are the reference against which the
encoders of the source are read. -/

namespace TLS13.Rfc

open Lib

theorem length_encode_le {α : Type} (enc : α → Bytes) {a : α} {as : List α} (h : a ∈ as) :
    (enc a).length ≤ (as.flatMap enc).length := by
  rw [List.flatMap_def]
  exact (List.sublist_flatten_of_mem (List.mem_map_of_mem h)).length_le

/-- There are at most as many items as bytes, when every item takes one. -/
theorem count_le_length {α : Type} (enc : α → Bytes) (hpos : ∀ a, 0 < (enc a).length)
    (as : List α) : as.length ≤ (as.flatMap enc).length := by
  induction as with
  | nil => simp
  | cons a as ih =>
    have := hpos a
    rw [List.flatMap_cons, List.length_append, List.length_cons]
    omega

/-! ### Handshake messages -/

def handshakeMessage (msgType : UInt8) (body : Bytes) : Bytes := [msgType] ++ vec 3 body

theorem length_handshakeMessage (msgType : UInt8) (body : Bytes) :
    (handshakeMessage msgType body).length = 4 + body.length := by
  simp [handshakeMessage]
  omega

/-- The type and the body of one handshake message. -/
def takeHandshake : Decoder (ℕ × Bytes) := do
  let msgType ← number 1
  let body ← takeVec 3
  return (msgType, body)

theorem decodes_takeHandshake (msgType : UInt8) {body : Bytes} (h : body.length < 256 ^ 3) :
    Decodes takeHandshake (handshakeMessage msgType body) (msgType.toNat, body) := by
  have htype : [msgType] = be 1 msgType.toNat := by simp [be]
  rw [handshakeMessage, htype]
  exact (decodes_number msgType.toNat_lt).bind ((decodes_takeVec h).last rfl)

/-! ### Extensions -/

structure Extension where
  type : UInt16
  data : Bytes
  deriving DecidableEq

namespace Extension

def encode (e : Extension) : Bytes := be 2 e.type.toNat ++ vec 2 e.data

@[simp] theorem length_encode (e : Extension) : e.encode.length = 4 + e.data.length := by
  simp [encode]
  omega

theorem encode_ne_nil (e : Extension) : e.encode ≠ [] := by
  apply List.ne_nil_of_length_pos
  rw [length_encode]
  omega

def decode : Decoder Extension := do
  let type ← number 2
  let data ← takeVec 2
  return ⟨UInt16.ofNat type, data⟩

theorem decodes (e : Extension) (h : e.data.length < 256 ^ 2) : Decodes decode e.encode e :=
  (decodes_number e.type.toNat_lt).bind ((decodes_takeVec h).last (by rw [UInt16.ofNat_toNat]))

theorem exact : Exact decode encode := by
  intro bs e rest h
  obtain ⟨type, mid, htype, h⟩ := run_bind_eq_some.mp h
  obtain ⟨data, rest', hdata, h⟩ := run_bind_eq_some.mp h
  obtain ⟨rfl, rfl⟩ := run_pure_eq_some.mp h
  rw [exact_number 2 htype, exact_takeVec 2 hdata, encode, UInt16.toNat_ofNat',
    show 2 ^ 16 = 256 ^ 2 by rfl, be_mod, List.append_assoc]

/-- The bytes end inside an extension: in its header, or in the data it announces. -/
inductive CutShort (tail : Bytes) : Prop
  | header (h : tail.length < 4)
  | data (type n : UInt16) (d : Bytes) (h : tail = be 2 type.toNat ++ (be 2 n.toNat ++ d))
      (hlt : d.length < n.toNat)

/-- The reference decoder refuses exactly what ends inside an extension. -/
theorem decode_eq_none_iff {tail : Bytes} : decode.run tail = none ↔ CutShort tail := by
  have hpure (type : ℕ) (bs : Bytes) :
      (takeVec 2 >>= fun data => pure (⟨UInt16.ofNat type, data⟩ : Extension)).run bs = none ↔
        (takeVec 2).run bs = none := by
    rw [run_bind_eq_none]
    simp [StateT.run_pure]
  simp only [decode, run_bind_eq_none, number_eq_none, number_eq_some, hpure, takeVec_eq_none]
  constructor
  · rintro (hheader | ⟨type, rest, ⟨htype, rfl⟩, hheader | ⟨n, d, hn, rfl, hlt⟩⟩)
    · exact .header (by omega)
    · exact .header (by rw [List.length_append, length_be]; omega)
    · refine .data (UInt16.ofNat type) (UInt16.ofNat n) d ?_ ?_
      · rw [UInt16.toNat_ofNat_of_lt' htype, UInt16.toNat_ofNat_of_lt' hn]
      · rw [UInt16.toNat_ofNat_of_lt' hn]
        exact hlt
  · rintro (hheader | ⟨type, n, d, rfl, hlt⟩)
    · by_cases h2 : tail.length < 2
      · exact .inl h2
      · have hsplit := List.take_append_drop 2 tail
        have htake : (tail.take 2).length = 2 := List.length_take_of_le (by omega)
        have hbe := be_value (tail.take 2)
        have hval := value_lt (tail.take 2)
        rw [htake] at hbe hval
        refine .inr ⟨value (tail.take 2), tail.drop 2, ⟨hval, ?_⟩, .inl ?_⟩
        · rw [hbe, hsplit]
        · rw [List.length_drop]
          omega
    · exact .inr ⟨type.toNat, _, ⟨type.toNat_lt, rfl⟩, .inr ⟨n.toNat, d, n.toNat_lt, rfl, hlt⟩⟩

end Extension

def encodeExtensions (es : List Extension) : Bytes := es.flatMap Extension.encode

def decodeExtensions (bs : Bytes) : Option (List Extension) :=
  decodeMany Extension.decode bs.length bs

theorem data_lt_of_mem {e : Extension} {es : List Extension} {n : ℕ} (he : e ∈ es)
    (h : (encodeExtensions es).length < n) : e.data.length < n := by
  have hle := length_encode_le Extension.encode he
  rw [Extension.length_encode] at hle
  unfold encodeExtensions at h
  omega

theorem decodeExtensions_eq {es : List Extension} (h : (encodeExtensions es).length < 256 ^ 2) :
    decodeExtensions (encodeExtensions es) = some es :=
  decodeMany_eq es (fun e he => e.decodes (data_lt_of_mem he h)) Extension.encode_ne_nil _ le_rfl

theorem encode_of_decodeExtensions {bs : Bytes} {es : List Extension}
    (h : decodeExtensions bs = some es) : bs = encodeExtensions es :=
  decodeMany_exact Extension.exact _ h

/-- The block ends inside an extension, after any number of complete ones. -/
def CutShort (block : Bytes) : Prop :=
  ∃ es tail, block = encodeExtensions es ++ tail ∧ tail ≠ [] ∧ Extension.CutShort tail

/-- A block is refused exactly when its last extension is cut short. -/
theorem decodeExtensions_eq_none_iff {block : Bytes} (h : block.length < 256 ^ 2) :
    decodeExtensions block = none ↔ CutShort block := by
  constructor
  · intro hnone
    obtain ⟨es, tail, hblock, htail, hrun⟩ :=
      decodeMany_eq_none Extension.exact Extension.encode_ne_nil _ le_rfl hnone
    exact ⟨es, tail, hblock, htail, Extension.decode_eq_none_iff.mp hrun⟩
  · rintro ⟨es, tail, rfl, htail, hshort⟩
    rw [List.length_append] at h
    have hes : ∀ e ∈ es, Decodes Extension.decode e.encode e :=
      fun e he => e.decodes (data_lt_of_mem he (by omega))
    exact decodeMany_append_eq_none es hes Extension.encode_ne_nil htail
      (Extension.decode_eq_none_iff.mpr hshort) _

/-! ### Key shares -/

structure KeyShareEntry where
  group : UInt16
  key : Bytes
  deriving DecidableEq

namespace KeyShareEntry

def encode (s : KeyShareEntry) : Bytes := be 2 s.group.toNat ++ vec 2 s.key

@[simp] theorem length_encode (s : KeyShareEntry) : s.encode.length = 4 + s.key.length := by
  simp [encode]
  omega

def decode : Decoder KeyShareEntry := do
  let group ← number 2
  let key ← takeVec 2
  return ⟨UInt16.ofNat group, key⟩

theorem decodes (s : KeyShareEntry) (h : s.key.length < 256 ^ 2) : Decodes decode s.encode s :=
  (decodes_number s.group.toNat_lt).bind ((decodes_takeVec h).last (by rw [UInt16.ofNat_toNat]))

end KeyShareEntry

/-- The `client_shares` list of a `key_share` extension. -/
structure ClientShares where
  entries : List KeyShareEntry
  size_lt : (entries.flatMap KeyShareEntry.encode).length < 256 ^ 2

namespace ClientShares

def encode (l : ClientShares) : Bytes := vec 2 (l.entries.flatMap KeyShareEntry.encode)

theorem key_lt (l : ClientShares) : ∀ s ∈ l.entries, s.key.length < 256 ^ 2 := by
  intro s hs
  have hle := length_encode_le KeyShareEntry.encode hs
  have hsize := l.size_lt
  rw [KeyShareEntry.length_encode] at hle
  omega

/-- The first entry of the X25519 group. -/
def firstX25519 (l : ClientShares) : Option KeyShareEntry := l.entries.find? (·.group = 0x001D)

end ClientShares

/-! ### ClientHello -/

/-- The fields of a ClientHello, with the extension block as it stands. -/
structure HelloFields where
  legacyVersion : Block 2
  random : Block 32
  sessionId : Bytes
  cipherSuites : Bytes
  compressionMethods : Bytes
  block : Bytes
  sessionId_lt : sessionId.length < 256 ^ 1
  cipherSuites_lt : cipherSuites.length < 256 ^ 2
  compressionMethods_lt : compressionMethods.length < 256 ^ 1
  block_lt : block.length < 256 ^ 2

namespace HelloFields

def encode (f : HelloFields) : Bytes :=
  f.legacyVersion.val ++ f.random.val ++ vec 1 f.sessionId ++ vec 2 f.cipherSuites ++
    vec 1 f.compressionMethods ++ vec 2 f.block

/-- Where the extension block starts. -/
def offset (f : HelloFields) : ℕ :=
  40 + f.sessionId.length + f.cipherSuites.length + f.compressionMethods.length

theorem length_encode (f : HelloFields) : f.encode.length = f.offset + f.block.length := by
  simp only [encode, offset, List.length_append, length_vec, Block.length_val]
  omega

end HelloFields

structure ClientHello where
  legacyVersion : Block 2
  random : Block 32
  sessionId : Bytes
  cipherSuites : Bytes
  compressionMethods : Bytes
  extensions : List Extension
  sessionId_lt : sessionId.length < 256 ^ 1
  cipherSuites_lt : cipherSuites.length < 256 ^ 2
  compressionMethods_lt : compressionMethods.length < 256 ^ 1
  extensions_lt : (encodeExtensions extensions).length < 256 ^ 2

namespace ClientHello

def encode (ch : ClientHello) : Bytes :=
  ch.legacyVersion.val ++ ch.random.val ++ vec 1 ch.sessionId ++ vec 2 ch.cipherSuites ++
    vec 1 ch.compressionMethods ++ vec 2 (encodeExtensions ch.extensions)

def fields (ch : ClientHello) : HelloFields where
  legacyVersion := ch.legacyVersion
  random := ch.random
  sessionId := ch.sessionId
  cipherSuites := ch.cipherSuites
  compressionMethods := ch.compressionMethods
  block := encodeExtensions ch.extensions
  sessionId_lt := ch.sessionId_lt
  cipherSuites_lt := ch.cipherSuites_lt
  compressionMethods_lt := ch.compressionMethods_lt
  block_lt := ch.extensions_lt

theorem encode_fields (ch : ClientHello) : ch.fields.encode = ch.encode := rfl

theorem length_encode_lt (ch : ClientHello) : ch.encode.length < 256 ^ 3 := by
  have h1 := ch.sessionId_lt
  have h2 := ch.cipherSuites_lt
  have h3 := ch.compressionMethods_lt
  have h4 := ch.extensions_lt
  simp only [encode, List.length_append, length_vec, Block.length_val]
  omega

/-- The first `key_share` extension, if any. -/
def keyShare (ch : ClientHello) : Option Extension := ch.extensions.find? (·.type = 51)

/-- Every `key_share` extension holds exactly one `client_shares` list. -/
def SharesWellFormed (ch : ClientHello) : Prop :=
  ∀ e ∈ ch.extensions, e.type = 51 → ∃ l : ClientShares, e.data = l.encode

/-- The first X25519 entry of the first `key_share` extension holds the key `k`. -/
def OffersX25519 (ch : ClientHello) (k : Block 32) : Prop :=
  ∃ (e : Extension) (l : ClientShares) (s : KeyShareEntry), ch.keyShare = some e ∧
    e.data = l.encode ∧ l.firstX25519 = some s ∧ s.key = k.val

theorem OffersX25519.extensions_ne_nil {ch : ClientHello} {k : Block 32} (h : ch.OffersX25519 k) :
    ch.extensions ≠ [] := by
  obtain ⟨e, l, s, he, -⟩ := h
  intro hnil
  simp [keyShare, hnil] at he

end ClientHello

/-! ### ServerHello -/

structure ServerHello where
  legacyVersion : Block 2
  random : Block 32
  sessionIdEcho : Bytes
  cipherSuite : Block 2
  compressionMethod : ℕ
  extensions : List Extension
  deriving DecidableEq

namespace ServerHello

def encode (sh : ServerHello) : Bytes :=
  sh.legacyVersion.val ++ sh.random.val ++ vec 1 sh.sessionIdEcho ++ sh.cipherSuite.val ++
    be 1 sh.compressionMethod ++ vec 2 (encodeExtensions sh.extensions)

def decode : Decoder ServerHello := do
  let legacyVersion ← takeBlock 2
  let random ← takeBlock 32
  let sessionIdEcho ← takeVec 1
  let cipherSuite ← takeBlock 2
  let compressionMethod ← number 1
  let block ← takeVec 2
  let extensions ← StateT.lift (decodeExtensions block)
  return ⟨legacyVersion, random, sessionIdEcho, cipherSuite, compressionMethod, extensions⟩

theorem decodes (sh : ServerHello) (hsid : sh.sessionIdEcho.length < 256 ^ 1)
    (hcomp : sh.compressionMethod < 256 ^ 1)
    (hext : (encodeExtensions sh.extensions).length < 256 ^ 2) :
    Decodes decode sh.encode sh := by
  simp only [encode, List.append_assoc]
  refine (decodes_takeBlock sh.legacyVersion).bind ?_
  refine (decodes_takeBlock sh.random).bind ?_
  refine (decodes_takeVec hsid).bind ?_
  refine (decodes_takeBlock sh.cipherSuite).bind ?_
  refine (decodes_number hcomp).bind ?_
  refine (decodes_takeVec hext).last ?_
  rw [decodeExtensions_eq hext]
  rfl

/-- The key of the X25519 entry that the server chose. -/
def x25519Key (sh : ServerHello) : Option (Block 32) := do
  let e ← sh.extensions.find? (·.type = 51)
  let (group, key) ← decodeAll (do return (← number 2, ← takeVec 2)) e.data
  if h : group = 0x001D ∧ key.length = 32 then some ⟨key, h.2⟩ else none

end ServerHello

end TLS13.Rfc
