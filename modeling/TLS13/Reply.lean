import TLS13.Agreement
import TLS13.Negotiation

/-! The ServerHello on the wire. The handshake computes four lengths in four
functions and cuts each of them to the width of its field; none of the cuts loses
anything, so the record that is written decodes, level by level, to the selection
of the server. -/

namespace TLS13

open Lib

variable {S : Sodium}

/-- No length is cut: the count of the extensions to 8 bits, the length of each
and of all of them to 16, that of the body to 32 and 24, and that of the message
to 16. -/
structure LengthsKept (extensions : ExtensionArray) (length : ℕ) (body message : Bytes) : Prop where
  count : extensions.length.toNat = extensions.array.length
  data : ∀ e ∈ extensions.array, e.extensionDataLength.toNat = e.extensionData.length
  extensions : (UInt16.ofNat length).toNat = length
  body32 : (UInt32.ofNat body.length).toNat = body.length
  body24 : value (be 3 body.length) = body.length
  message : (UInt16.ofNat message.length).toNat = message.length

/-- One record that decodes, with nothing missing or left over, to a message, a
body and a ServerHello with the selection of the server. -/
structure DecodesToReply (record message : Bytes) (random : Block 32) (sessionId : Bytes)
    (publicKey : Block 32) : Prop where
  record : decodeAll Rfc.takeRecord record = some (22, 0x0303, message)
  body : ∃ body sh keyShare, decodeAll Rfc.takeHandshake message = some (2, body) ∧
    decodeAll Rfc.ServerHello.decode body = some sh ∧
    sh.legacyVersion.val = [0x03, 0x03] ∧ sh.random = random ∧ sh.sessionIdEcho = sessionId ∧
    sh.cipherSuite.val = [0x13, 0x03] ∧ sh.compressionMethod = 0 ∧
    sh.extensions = [⟨43, [0x03, 0x04]⟩, ⟨51, keyShare⟩] ∧
    decodeAll Rfc.KeyShareEntry.decode keyShare = some ⟨0x001D, publicKey.val⟩

theorem length_keyShareData (publicKey : Block 32) :
    (keyShareData namedGroupX25519 publicKey.val).length = 36 := by
  simp [keyShareData]

theorem lengthsKept (random : Block 32) {sessionId : Bytes} (publicKey : Block 32)
    (hid : sessionId.length < 256) :
    LengthsKept (replyExtensions publicKey) 46 (serverHello random sessionId publicKey).encode
      (serverHelloMessage random sessionId publicKey) := by
  have hbody := length_serverHello random sessionId publicKey
  have hmessage := length_serverHelloMessage random sessionId publicKey
  refine ⟨rfl, ?_, rfl, toNat_ofNat_uint32 (by omega), value_be_of_lt (by omega),
    toNat_ofNat_uint16 (by omega)⟩
  · intro e he
    have hcases : e = Extension.ofRfc ⟨supportedVersionsExtensionType, [0x03, 0x04]⟩ ∨
        e = Extension.ofRfc
          ⟨keyShareExtensionType, keyShareData namedGroupX25519 publicKey.val⟩ := by
      simpa [replyExtensions, ExtensionArray.ofRfc] using he
    rcases hcases with rfl | rfl
    · rfl
    · exact toNat_ofNat_uint16 (by rw [length_keyShareData]; norm_num)

theorem decodesToReply (random : Block 32) {sessionId : Bytes} (publicKey : Block 32)
    (hid : sessionId.length < 256) :
    DecodesToReply
      (Rfc.plaintextRecord handshakeType (serverHelloMessage random sessionId publicKey))
      (serverHelloMessage random sessionId publicKey) random sessionId publicKey := by
  have hmessage := length_serverHelloMessage random sessionId publicKey
  have hkey : publicKey.val.length < 256 ^ 2 := by
    rw [publicKey.length_val]
    norm_num
  obtain ⟨htake, hdecode⟩ := decodeAll_serverHello random publicKey hid
  refine ⟨decodeAll_eq (Rfc.decodes_takeRecord handshakeType (by omega)), ?_⟩
  exact ⟨_, _, keyShareData namedGroupX25519 publicKey.val, htake, hdecode, rfl, rfl, rfl, rfl, rfl,
    rfl, decodeAll_eq (Rfc.KeyShareEntry.decodes ⟨namedGroupX25519, publicKey.val⟩ hkey)⟩

/-- A handshake whose key exchange succeeds writes one record, which decodes to the
ServerHello of the server with the client's session id; no length is cut on the
way, and what is hashed is the fragment of the record. -/
theorem handshake_reply {ent : Entropy} {w : World} {ch : ClientHello}
    {publicKey clientPublicKey sharedSecret : Block 32}
    (hsuite : w.state.cipherSuite = tlsChacha20Poly1305Sha256Num)
    (hbase : S.scalarmultBase ent.serverPrivateKey = some publicKey)
    (hshare : getX25519KeyShare ch.extensions = .ok clientPublicKey)
    (hagree : S.scalarmult ent.serverPrivateKey clientPublicKey = some sharedSecret)
    (hid : ch.legacySessionIdLength.toNat ≤ ch.legacySessionId.length) :
    ∃ extensions length body message record w',
      clientHelloServerHelloHandshake S ent w ch = .ok (0, w') ∧
      answers w w' = [record] ∧
      ReplySteps ent.random ch publicKey extensions length body message record ∧
      LengthsKept extensions length body message ∧
      DecodesToReply record message ent.random
        (ch.legacySessionId.take ch.legacySessionIdLength.toNat) publicKey ∧
      w'.state.hashState.absorbed = w.state.hashState.absorbed ++ message := by
  have hidLt := ch.length_sessionId_lt
  have hcall : clientHelloServerHelloHandshake S ent w ch = .ok (0, w.answer sharedSecret
      (serverHelloMessage ent.random ch.sessionId publicKey)) := by
    simp only [clientHelloServerHelloHandshake, if_pos hsuite, hbase, hshare, hagree,
      Checked.bind_ok]
    exact sendServerHello_eq publicKey hid
  exact ⟨_, _, _, _, _, _, hcall, answers_answer _ _ _, replySteps ent.random publicKey hid,
    lengthsKept ent.random publicKey hidLt, decodesToReply ent.random publicKey hidLt, rfl⟩

/-- The ServerHello for the sample client. -/
theorem handshake_reply_sample :
    ∃ record message w' publicKey, clientHelloServerHelloHandshake Sodium.reference sampleEntropy
        (World.init sampleHeap) (ClientHello.ofRfc sampleHello) = .ok (0, w') ∧
      answers (World.init sampleHeap) w' = [record] ∧
      DecodesToReply record message sampleEntropy.random [] publicKey := by
  obtain ⟨sharedSecret, hagree⟩ := scalarmult_sample
  obtain ⟨_, _, _, message, record, w', hcall, hanswers, -, -, hdecodes, -⟩ :=
    @handshake_reply _ _ (World.init sampleHeap) (ClientHello.ofRfc sampleHello) _ _ _ rfl rfl
      (getX25519KeyShare_of_offers (by decide) (offers_minimalHello _ samplePoint)) hagree
      (toNat_ofNat_uint8 sampleHello.sessionId_lt).le
  exact ⟨record, message, w', _, hcall, hanswers, hdecodes⟩

end TLS13
