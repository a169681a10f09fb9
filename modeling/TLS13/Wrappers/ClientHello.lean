import TLS13.Wrappers.Extensions

/-! The ClientHello parser, `wrappers/ClientHello.c`. Every field's position is
the sum of the sizes before it, and nothing is compared with the length of the
body, so the parser is exact on messages of the grammar. -/

namespace TLS13

open Lib

/-- `parse_client_hello` up to its call of `parse_extensions`: the struct without
its extensions, and the offset of the block. -/
def parseHelloFields (data : Bytes) : Checked (ClientHello × ℕ) := do
  let iter := 0
  let legacyVersion ← readBytes data iter 2
  let iter := iter + 2
  let random ← readBytes data iter 32
  let iter := iter + 32
  let legacySessionIdLength ← readByte data iter
  let iter := iter + 1
  let legacySessionId ← readBytes data iter legacySessionIdLength.toNat
  let iter := iter + legacySessionIdLength.toNat
  let cipherSuitesLength ← readUint16 data iter
  let iter := iter + 2
  let cipherSuites ← readBytes data iter cipherSuitesLength.toNat
  let iter := iter + cipherSuitesLength.toNat
  let legacyCompressionMethodsLength ← readByte data iter
  let iter := iter + 1
  let legacyCompressionMethods ← readBytes data iter legacyCompressionMethodsLength.toNat
  let iter := iter + legacyCompressionMethodsLength.toNat
  let extensionsLength ← readUint16 data iter
  let iter := iter + 2
  return ({ legacyVersion, random, legacySessionIdLength, legacySessionId, cipherSuitesLength,
            cipherSuites, legacyCompressionMethodsLength, legacyCompressionMethods,
            extensionsLength, extensions := ⟨0, []⟩ }, iter)

/-- `data_length` is passed and not used. -/
def parseClientHello (data : Bytes) (_dataLength : ℕ) : Checked ClientHello := do
  let (ch, iter) ← parseHelloFields data
  let extensions ← parseExtensions (data.drop iter) ch.extensionsLength.toNat
  return { ch with extensions }

/-- The struct that holds the fields of a message, without extensions. -/
def ClientHello.ofFields (f : Rfc.HelloFields) : ClientHello where
  legacyVersion := f.legacyVersion.val
  random := f.random.val
  legacySessionIdLength := UInt8.ofNat f.sessionId.length
  legacySessionId := f.sessionId
  cipherSuitesLength := UInt16.ofNat f.cipherSuites.length
  cipherSuites := f.cipherSuites
  legacyCompressionMethodsLength := UInt8.ofNat f.compressionMethods.length
  legacyCompressionMethods := f.compressionMethods
  extensionsLength := UInt16.ofNat f.block.length
  extensions := ⟨0, []⟩

/-- The struct that holds a ClientHello of the wire grammar. -/
def ClientHello.ofRfc (ch : Rfc.ClientHello) : ClientHello where
  legacyVersion := ch.legacyVersion.val
  random := ch.random.val
  legacySessionIdLength := UInt8.ofNat ch.sessionId.length
  legacySessionId := ch.sessionId
  cipherSuitesLength := UInt16.ofNat ch.cipherSuites.length
  cipherSuites := ch.cipherSuites
  legacyCompressionMethodsLength := UInt8.ofNat ch.compressionMethods.length
  legacyCompressionMethods := ch.compressionMethods
  extensionsLength := UInt16.ofNat (Rfc.encodeExtensions ch.extensions).length
  extensions := ExtensionArray.ofRfc ch.extensions

/-! ### Vectors behind their lengths -/

section Vectors

variable {data xs rest : Bytes} {iter : ℕ}

theorem drop_vec1 (h : data.drop iter = vec 1 xs ++ rest) :
    readByte data iter = .ok (UInt8.ofNat xs.length) ∧
      readBytes data (iter + 1) xs.length = .ok xs ∧ data.drop (iter + 1 + xs.length) = rest := by
  have hbe : be 1 xs.length = [UInt8.ofNat xs.length] := by simp [be]
  rw [vec, hbe, List.append_assoc] at h
  have h1 := drop_past h (n := 1) rfl
  exact ⟨readByte_eq h, readBytes_eq h1 rfl, drop_past h1 rfl⟩

theorem drop_vec2 (h : data.drop iter = vec 2 xs ++ rest) (hlt : xs.length < 256 ^ 2) :
    readUint16 data iter = .ok (UInt16.ofNat xs.length) ∧
      readBytes data (iter + 2) xs.length = .ok xs ∧
      data.drop (iter + 2) = xs ++ rest ∧ data.drop (iter + 2 + xs.length) = rest := by
  rw [vec, List.append_assoc] at h
  have h2 := drop_past h (n := 2) (by simp)
  have hlen := toNat_ofNat_uint16 hlt
  exact ⟨readUint16_eq (hlen.symm ▸ h), readBytes_eq h2 rfl, h2, drop_past h2 rfl⟩

/-- What the reads of a one-byte length and of a vector say about the bytes. -/
theorem drop_eq_of_vec1 {n : UInt8} (hn : readByte data iter = .ok n)
    (hxs : readBytes data (iter + 1) n.toNat = .ok xs) :
    xs.length = n.toNat ∧ data.drop iter = vec 1 xs ++ data.drop (iter + 1 + n.toNat) := by
  obtain ⟨hlen, hdrop⟩ := drop_eq_of_readBytes hxs
  refine ⟨hlen, ?_⟩
  rw [drop_eq_of_readByte hn, hdrop]
  simp [vec, be, hlen]

theorem drop_eq_of_vec2 {n : UInt16} (hn : readUint16 data iter = .ok n)
    (hxs : readBytes data (iter + 2) n.toNat = .ok xs) :
    xs.length = n.toNat ∧ data.drop iter = vec 2 xs ++ data.drop (iter + 2 + n.toNat) := by
  obtain ⟨hlen, hdrop⟩ := drop_eq_of_readBytes hxs
  refine ⟨hlen, ?_⟩
  rw [drop_eq_of_readUint16 hn, hdrop, vec, hlen, List.append_assoc]

end Vectors

/-! ### Messages of the grammar -/

theorem parseHelloFields_encode (f : Rfc.HelloFields) (rest : Bytes) :
    parseHelloFields (f.encode ++ rest) = .ok (ClientHello.ofFields f, f.offset) ∧
      (f.encode ++ rest).drop f.offset = f.block ++ rest := by
  set data := f.encode ++ rest with hdata
  have h0 : data.drop 0 = f.legacyVersion.val ++ (f.random.val ++ (vec 1 f.sessionId ++
      (vec 2 f.cipherSuites ++ (vec 1 f.compressionMethods ++ (vec 2 f.block ++ rest))))) := by
    simp [hdata, Rfc.HelloFields.encode]
  have h2 := drop_past h0 (n := 2) (by simp)
  have h34 := drop_past h2 (n := 32) (by simp)
  obtain ⟨hsidLen, hsid, h4⟩ := drop_vec1 h34
  obtain ⟨hsuiteLen, hsuite, -, h5⟩ := drop_vec2 h4 f.cipherSuites_lt
  obtain ⟨hcompLen, hcomp, h6⟩ := drop_vec1 h5
  obtain ⟨hextLen, -, h7, -⟩ := drop_vec2 h6 f.block_lt
  have hoffset : 0 + 2 + 32 + 1 + f.sessionId.length + 2 + f.cipherSuites.length + 1 +
      f.compressionMethods.length + 2 = f.offset := by
    rw [Rfc.HelloFields.offset]
    omega
  rw [hoffset] at h7
  refine ⟨?_, h7⟩
  simp only [parseHelloFields, readBytes_eq h0 f.legacyVersion.length_val.symm,
    readBytes_eq h2 f.random.length_val.symm, hsidLen, toNat_ofNat_uint8 f.sessionId_lt, hsid,
    hsuiteLen, toNat_ofNat_uint16 f.cipherSuites_lt, hsuite, hcompLen,
    toNat_ofNat_uint8 f.compressionMethods_lt, hcomp, hextLen, hoffset, Checked.bind_ok,
    Checked.pure_eq, ClientHello.ofFields]

/-- Fields that were read, with a block that lies in the body, are those of a message. -/
theorem parseHelloFields_sound {data : Bytes} {ch : ClientHello} {iter : ℕ}
    (h : parseHelloFields data = .ok (ch, iter))
    (hle : iter + ch.extensionsLength.toNat ≤ data.length) :
    ∃ (f : Rfc.HelloFields) (rest : Bytes), data = f.encode ++ rest := by
  simp only [parseHelloFields, Checked.bind_eq_ok, Checked.pure_eq, Except.ok.injEq,
    Prod.mk.injEq] at h
  obtain ⟨version, hversion, random, hrandom, sidLen, hsidLen, sid, hsid, suitesLen, hsuitesLen,
    suites, hsuites, compLen, hcompLen, comp, hcomp, extLen, hextLen, rfl, rfl⟩ := h
  obtain ⟨hversionLen, h0⟩ := drop_eq_of_readBytes hversion
  obtain ⟨hrandomLen, h2⟩ := drop_eq_of_readBytes hrandom
  obtain ⟨hsidSize, h34⟩ := drop_eq_of_vec1 hsidLen hsid
  obtain ⟨hsuitesSize, h4⟩ := drop_eq_of_vec2 hsuitesLen hsuites
  obtain ⟨hcompSize, h5⟩ := drop_eq_of_vec1 hcompLen hcomp
  have h6 := drop_eq_of_readUint16 hextLen
  set iter := 0 + 2 + 32 + 1 + sidLen.toNat + 2 + suitesLen.toNat + 1 + compLen.toNat
  obtain ⟨block, hblock, hrest⟩ := exists_drop_eq_append hle
  dsimp only at hblock hrest
  generalize data.drop (iter + 2 + extLen.toNat) = rest at hrest
  rw [hrest, ← hblock, ← List.append_assoc] at h6
  refine ⟨⟨⟨version, hversionLen⟩, ⟨random, hrandomLen⟩, sid, suites, comp, block,
    hsidSize ▸ sidLen.toNat_lt, hsuitesSize ▸ suitesLen.toNat_lt, hcompSize ▸ compLen.toNat_lt,
    hblock ▸ extLen.toNat_lt⟩, rest, ?_⟩
  rw [List.drop_zero] at h0
  rw [h0, h2, h34, h4, h5, h6, Rfc.HelloFields.encode]
  simp only [vec, List.append_assoc]

theorem parseClientHello_fields (ch : Rfc.ClientHello) (rest : Bytes) (dataLength : ℕ) :
    parseClientHello (ch.encode ++ rest) dataLength = (do
      let extensions ← parseExtensions (Rfc.encodeExtensions ch.extensions ++ rest)
        (Rfc.encodeExtensions ch.extensions).length
      return { ClientHello.ofRfc ch with extensions }) := by
  obtain ⟨hfields, hblock⟩ := parseHelloFields_encode ch.fields rest
  rw [ch.encode_fields] at hfields hblock
  have hlen : (ClientHello.ofFields ch.fields).extensionsLength.toNat =
      (Rfc.encodeExtensions ch.extensions).length := toNat_ofNat_uint16 ch.extensions_lt
  simp only [parseClientHello, hfields, Checked.bind_ok, hblock, hlen]
  rfl

theorem parseClientHello_append {ch : Rfc.ClientHello} (rest : Bytes) (dataLength : ℕ)
    (hne : ch.extensions ≠ []) :
    parseClientHello (ch.encode ++ rest) dataLength = .ok (ClientHello.ofRfc ch) := by
  rw [parseClientHello_fields, parseExtensions_encode rest hne ch.extensions_lt]
  rfl

theorem parseClientHello_encode {ch : Rfc.ClientHello} (dataLength : ℕ) (hne : ch.extensions ≠ []) :
    parseClientHello ch.encode dataLength = .ok (ClientHello.ofRfc ch) := by
  have hparse := parseClientHello_append [] dataLength hne
  rwa [List.append_nil] at hparse

/-- A message without extensions sends the extension parser past the body. -/
theorem parseClientHello_nil {ch : Rfc.ClientHello} (dataLength : ℕ) (hnil : ch.extensions = []) :
    parseClientHello ch.encode dataLength = .error .overRead := by
  have hparse := parseClientHello_fields ch [] dataLength
  rw [List.append_nil, List.append_nil] at hparse
  rw [hparse, hnil]
  simp only [Rfc.encodeExtensions, List.flatMap_nil, parseExtensions_nil, Checked.bind_error]

/-- The struct `c` is the message `ch`, with every length that of its field. -/
structure ClientHello.Holds (c : ClientHello) (ch : Rfc.ClientHello) : Prop where
  legacyVersion : c.legacyVersion = ch.legacyVersion.val
  random : c.random = ch.random.val
  legacySessionIdLength : c.legacySessionIdLength.toNat = ch.sessionId.length
  legacySessionId : c.legacySessionId = ch.sessionId
  cipherSuitesLength : c.cipherSuitesLength.toNat = ch.cipherSuites.length
  cipherSuites : c.cipherSuites = ch.cipherSuites
  legacyCompressionMethodsLength :
    c.legacyCompressionMethodsLength.toNat = ch.compressionMethods.length
  legacyCompressionMethods : c.legacyCompressionMethods = ch.compressionMethods
  extensionsLength : c.extensionsLength.toNat = (Rfc.encodeExtensions ch.extensions).length
  extensions : c.extensions.toRfc = ch.extensions
  wellFormed : c.extensions.WellFormed

/-- A message of the grammar with 1 to 255 extensions is decoded as it is. -/
theorem parseClientHello_holds (ch : Rfc.ClientHello) (dataLength : ℕ) (hne : ch.extensions ≠ [])
    (hcount : ch.extensions.length ≤ 255) :
    ∃ c, parseClientHello ch.encode dataLength = .ok c ∧ c.Holds ch := by
  refine ⟨ClientHello.ofRfc ch, parseClientHello_encode dataLength hne, ?_⟩
  exact
    { legacyVersion := rfl
      random := rfl
      legacySessionIdLength := toNat_ofNat_uint8 ch.sessionId_lt
      legacySessionId := rfl
      cipherSuitesLength := toNat_ofNat_uint16 ch.cipherSuites_lt
      cipherSuites := rfl
      legacyCompressionMethodsLength := toNat_ofNat_uint8 ch.compressionMethods_lt
      legacyCompressionMethods := rfl
      extensionsLength := toNat_ofNat_uint16 ch.extensions_lt
      extensions := toRfc_ofRfc ch.extensions
      wellFormed := wellFormed_ofRfc (by omega) ch.extensions_lt }

/-- A message with bytes in every field and two extensions, one of them empty. -/
theorem parseClientHello_holds_sample :
    ∃ ch : Rfc.ClientHello, ch.sessionId = [9] ∧ ch.extensions = [⟨43, [2, 3, 4]⟩, ⟨0, []⟩] ∧
      ∃ c, parseClientHello ch.encode ch.encode.length = .ok c ∧ c.Holds ch :=
  ⟨⟨legacyVersion, Block.zero 32, [9], [0x13, 0x03], [0], [⟨43, [2, 3, 4]⟩, ⟨0, []⟩], by decide,
    by decide, by decide, by decide⟩, rfl, rfl,
    parseClientHello_holds _ _ (List.cons_ne_nil _ _) (by decide)⟩

end TLS13
