import TLS13.Rfc.Messages
import TLS13.Util

/-! Handshake messages, `wrappers/handshake.c`. The parser trusts the length in
the message and never looks at the size of its input, so it stays inside the
input exactly when the message it starts with is complete. -/

namespace TLS13

open Lib

/-- `data_length` is passed and not used. -/
def parseHandshake (data : Bytes) (_dataLength : ℕ) : Checked Handshake := do
  let msgType ← readByte data 0
  let length ← getUint24 data 1
  let body ← readBytes data 4 length.toNat
  return { msgType, length, body }

/-- The buffer is written without a look at the pointer. -/
def processHandshake (handshake : Handshake) : Checked Bytes := do
  let length := 1 + 3 + handshake.length
  let size ← bufferSize length .nullDeref
  let uint24Buf := processUint24 .little handshake.length
  let body ← readBytes handshake.body 0 handshake.length.toNat
  fill size ([handshake.msgType] ++ uint24Buf ++ body)

/-! ### The codec -/

theorem parseHandshake_message (msgType : UInt8) {body : Bytes} (rest : Bytes) (dataLength : ℕ)
    (h : body.length < 256 ^ 3) :
    parseHandshake (Rfc.handshakeMessage msgType body ++ rest) dataLength =
      .ok ⟨msgType, UInt32.ofNat body.length, body⟩ := by
  set data := Rfc.handshakeMessage msgType body ++ rest
  have hlen : (UInt32.ofNat body.length).toNat = body.length := toNat_ofNat_uint32 (by omega)
  have h0 : data.drop 0 = msgType :: (be 3 body.length ++ (body ++ rest)) := by
    simp [data, Rfc.handshakeMessage, vec]
  have h1 : data.drop 1 = be 3 (UInt32.ofNat body.length).toNat ++ (body ++ rest) := by
    simp [data, Rfc.handshakeMessage, vec, hlen]
  have h4 : data.drop (1 + 3) = body ++ rest := drop_past h1 (by simp)
  have hbody : readBytes data 4 (UInt32.ofNat body.length).toNat = .ok body := readBytes_eq h4 hlen
  simp only [parseHandshake, readByte_eq h0, getUint24_eq (hlen.symm ▸ h) h1, hbody,
    Checked.bind_ok, Checked.pure_eq]

/-- The encoder reads a body allocation that may be larger than the message. -/
theorem processHandshake_eq (h : Handshake) (hb : h.length.toNat ≤ h.body.length)
    (h24 : h.length.toNat < 256 ^ 3) :
    processHandshake h =
      .ok (Rfc.handshakeMessage h.msgType (h.body.take h.length.toNat)) := by
  have hread : readBytes h.body 0 h.length.toNat = .ok (h.body.take h.length.toNat) := by
    simp [readBytes, hb]
  have hsum : (1 + 3 + h.length).toNat = 4 + h.length.toNat := by
    rw [UInt32.toNat_add, show (1 + 3 : UInt32).toNat = 4 by rfl]
    omega
  simp only [processHandshake, hread, bufferSize_eq .nullDeref hsum (by omega),
    processUint24_little, Checked.bind_ok]
  rw [fill_eq (by simp [hb]; omega)]
  simp [Rfc.handshakeMessage, vec, hb]

theorem processHandshake_message (msgType : UInt8) {body : Bytes} (h : body.length < 256 ^ 3) :
    processHandshake ⟨msgType, UInt32.ofNat body.length, body⟩ =
      .ok (Rfc.handshakeMessage msgType body) := by
  have hlen : (UInt32.ofNat body.length).toNat = body.length := toNat_ofNat_uint32 (by omega)
  rw [processHandshake_eq _ hlen.le (hlen.symm ▸ h), hlen, List.take_length]

/-! ### The header bound -/

/-- The 24-bit length a peer put into a handshake header. -/
def declaredLength (data : Bytes) : ℕ := value ((data.drop 1).take 3)

theorem declaredLength_message (msgType : UInt8) {body : Bytes} (rest : Bytes)
    (h : body.length < 256 ^ 3) :
    declaredLength (Rfc.handshakeMessage msgType body ++ rest) = body.length := by
  have hdrop : (Rfc.handshakeMessage msgType body ++ rest).drop 1 =
      be 3 body.length ++ (body ++ rest) := by
    simp [Rfc.handshakeMessage, vec]
  rw [declaredLength, hdrop, List.take_left' (length_be 3 _), value_be_of_lt h]

theorem message_of_declaredLength {data : Bytes} (h : 4 + declaredLength data ≤ data.length) :
    ∃ (msgType : UInt8) (body rest : Bytes), body.length < 256 ^ 3 ∧
      data = Rfc.handshakeMessage msgType body ++ rest := by
  obtain ⟨d0, d1, d2, d3, tail, rfl⟩ : ∃ d0 d1 d2 d3 tail, data = d0 :: d1 :: d2 :: d3 :: tail := by
    have h4 : 4 ≤ data.length := by omega
    match data, h4 with
    | d0 :: d1 :: d2 :: d3 :: tail, _ => exact ⟨d0, d1, d2, d3, tail, rfl⟩
  have hdecl : declaredLength (d0 :: d1 :: d2 :: d3 :: tail) = value [d1, d2, d3] := rfl
  rw [hdecl] at h
  have hlt := value_lt [d1, d2, d3]
  have hbe : be 3 (value [d1, d2, d3]) = [d1, d2, d3] := be_value [d1, d2, d3]
  have hbody : (tail.take (value [d1, d2, d3])).length = value [d1, d2, d3] := by
    simp only [List.length_cons] at h
    exact List.length_take_of_le (by omega)
  refine ⟨d0, tail.take (value [d1, d2, d3]), tail.drop (value [d1, d2, d3]), hbody.trans_lt hlt, ?_⟩
  rw [Rfc.handshakeMessage, vec, hbody, hbe, List.append_assoc, List.append_assoc,
    List.take_append_drop]
  rfl

theorem parseHandshake_sound {data : Bytes} {dataLength : ℕ} {hs : Handshake}
    (h : parseHandshake data dataLength = .ok hs) :
    hs.body.length = hs.length.toNat ∧ hs.length.toNat < 256 ^ 3 ∧
      ∃ rest, data = Rfc.handshakeMessage hs.msgType hs.body ++ rest := by
  simp only [parseHandshake, Checked.bind_eq_ok, Checked.pure_eq, Except.ok.injEq] at h
  obtain ⟨msgType, hm, n, hn, body, hb, rfl⟩ := h
  have h0 : data = msgType :: data.drop 1 := drop_eq_of_readByte hm
  obtain ⟨hlt, h1⟩ := drop_eq_of_getUint24 hn
  obtain ⟨hlen, h4⟩ := drop_eq_of_readBytes hb
  refine ⟨hlen, hlt, data.drop (4 + n.toNat), ?_⟩
  calc data = msgType :: (be 3 n.toNat ++ data.drop 4) := by rw [← h1, ← h0]
    _ = Rfc.handshakeMessage msgType body ++ data.drop (4 + n.toNat) := by
      rw [h4]
      simp [Rfc.handshakeMessage, vec, hlen]

theorem parseHandshake_eq_ok {data : Bytes} {dataLength : ℕ} {hs : Handshake} :
    parseHandshake data dataLength = .ok hs ↔
      4 + declaredLength data ≤ data.length ∧ data.head? = some hs.msgType ∧
        hs.length.toNat = declaredLength data ∧
        hs.body = (data.drop 4).take (declaredLength data) := by
  have hdrop (msgType : UInt8) (body rest : Bytes) :
      (Rfc.handshakeMessage msgType body ++ rest).drop 4 = body ++ rest := by
    simp [Rfc.handshakeMessage, vec, be]
  constructor
  · intro h
    obtain ⟨hlen, hlt, rest, rfl⟩ := parseHandshake_sound h
    rw [← hlen] at hlt
    rw [declaredLength_message _ _ hlt, hdrop, List.take_left, List.length_append,
      Rfc.length_handshakeMessage]
    exact ⟨by omega, rfl, hlen.symm, rfl⟩
  · rintro ⟨hle, hm, hn, hb⟩
    obtain ⟨msgType, body, rest, hlt, rfl⟩ := message_of_declaredLength hle
    rw [declaredLength_message _ _ hlt] at hn hb
    rw [hdrop, List.take_left] at hb
    rw [parseHandshake_message msgType rest dataLength hlt, ← hn, UInt32.ofNat_toNat, ← hb]
    cases hm
    rfl

/-- On a little-endian host the functions are inverse: a message with a body below
2^24 bytes is parsed back from its encoding, whatever follows it, and data that hold
the message they announce are encoded back up to its end. -/
theorem handshake_codec :
    (∀ h : Handshake, h.body.length = h.length.toNat → h.body.length < 2 ^ 24 →
      ∃ bytes, processHandshake h = .ok bytes ∧
        ∀ (rest : Bytes) (dataLength : ℕ), parseHandshake (bytes ++ rest) dataLength = .ok h) ∧
    ∀ (data : Bytes) (dataLength : ℕ), 4 + declaredLength data ≤ data.length →
      ∃ h, parseHandshake data dataLength = .ok h ∧
        processHandshake h = .ok (data.take (4 + declaredLength data)) := by
  constructor
  · rintro ⟨msgType, length, body⟩ hlen hlt24
    obtain rfl : UInt32.ofNat body.length = length := by
      rw [hlen, UInt32.ofNat_toNat]
    have hlt : body.length < 256 ^ 3 := hlt24.trans_eq (by norm_num)
    exact ⟨_, processHandshake_message msgType hlt, fun rest dataLength =>
      parseHandshake_message msgType rest dataLength hlt⟩
  · intro data dataLength hle
    obtain ⟨msgType, body, rest, hlt, rfl⟩ := message_of_declaredLength hle
    refine ⟨_, parseHandshake_message msgType rest dataLength hlt, ?_⟩
    rw [declaredLength_message msgType rest hlt,
      List.take_left' (Rfc.length_handshakeMessage msgType body)]
    exact processHandshake_message msgType hlt

/-- An EncryptedExtensions message with a byte behind it. -/
theorem handshake_codec_sample :
    (∃ bytes, processHandshake ⟨8, 2, [0, 0]⟩ = .ok bytes ∧
      ∀ (rest : Bytes) (dataLength : ℕ),
        parseHandshake (bytes ++ rest) dataLength = .ok ⟨8, 2, [0, 0]⟩) ∧
    ∃ h, parseHandshake [8, 0, 0, 2, 0, 0, 7] 7 = .ok h ∧
      processHandshake h = .ok [8, 0, 0, 2, 0, 0] :=
  ⟨handshake_codec.1 ⟨8, 2, [0, 0]⟩ rfl (by decide),
    handshake_codec.2 [8, 0, 0, 2, 0, 0, 7] 7 (by decide)⟩

/-- No byte past the input is read, and the body is the part of the input that
the header announces. -/
def HeaderBounded (data : Bytes) : Prop :=
  ∃ hs, parseHandshake data data.length = .ok hs ∧ 4 + hs.length.toNat ≤ data.length ∧
    hs.body = (data.drop 4).take hs.length.toNat

/-- The parser stays inside its input exactly when the announced body is there. -/
theorem headerBounded_iff (data : Bytes) :
    HeaderBounded data ↔ 4 + declaredLength data ≤ data.length := by
  constructor
  · rintro ⟨hs, hparse, hle, -⟩
    exact (parseHandshake_eq_ok.mp hparse).1
  · intro hle
    obtain ⟨msgType, body, rest, hlt, hdata⟩ := message_of_declaredLength hle
    have hparse := parseHandshake_message msgType rest data.length hlt
    rw [← hdata] at hparse
    obtain ⟨-, -, hn, hb⟩ := parseHandshake_eq_ok.mp hparse
    exact ⟨_, hparse, by rwa [hn], by rwa [hn]⟩

/-- A header of four bytes that announces one more: the read past the fragment. -/
theorem not_headerBounded_short : ¬ HeaderBounded [1, 0, 0, 1] := by
  rintro ⟨hs, hparse, -⟩
  cases hparse

end TLS13
