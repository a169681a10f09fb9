import TLS13.Hello
import TLS13.Rfc.Client

/-! The two sides of a handshake. A client that knows its scalar and the
ClientHello it sent reads the two records of the answer, and ends up with the
secrets, keys and IVs that the server stored. -/

namespace TLS13

open Lib

variable {S : Sodium}

theorem decodeAll_serverHello (random : Block 32) {sessionId : Bytes} (publicKey : Block 32)
    (hid : sessionId.length < 256) :
    decodeAll Rfc.takeHandshake (serverHelloMessage random sessionId publicKey) =
        some (2, (serverHello random sessionId publicKey).encode) ∧
      decodeAll Rfc.ServerHello.decode (serverHello random sessionId publicKey).encode =
        some (serverHello random sessionId publicKey) := by
  have hbody := length_serverHello random sessionId publicKey
  have hext := length_serverHello_extensions random sessionId publicKey
  refine ⟨decodeAll_eq (Rfc.decodes_takeHandshake serverHelloType (by omega)), decodeAll_eq ?_⟩
  have hcomp : (serverHello random sessionId publicKey).compressionMethod < 256 ^ 1 := by
    show 0 < 256 ^ 1
    norm_num
  exact Rfc.ServerHello.decodes _ hid hcomp (by omega)

/-- The client's view of an answer with the key `publicKey` of the server. -/
theorem clientHandshake_answer (hS : S.OpensSealed) {c publicKey sharedSecret : Block 32}
    (random : Block 32) {sessionId : Bytes} (clientHello : Bytes) (padding : ℕ)
    (hid : sessionId.length < 256) (hagree : S.scalarmult c publicKey = some sharedSecret)
    {hash server client : Block 32}
    (hhash : hash = S.hashSha256 (clientHello ++ serverHelloMessage random sessionId publicKey))
    (hserver : server = Rfc.serverHandshakeTrafficSecret S sharedSecret hash)
    (hclient : client = Rfc.clientHandshakeTrafficSecret S sharedSecret hash) :
    Rfc.clientHandshake S c clientHello
        (Rfc.plaintextRecord handshakeType (serverHelloMessage random sessionId publicKey))
        (Rfc.sealRecord S nullEncryptedExtensions handshakeType padding (Rfc.writeKey S server)
          (Rfc.recordNonce (Rfc.writeIv S server) 0)) =
      some ⟨server, client, Rfc.writeKey S server, Rfc.writeIv S server, Rfc.writeKey S client,
        Rfc.writeIv S client, nullEncryptedExtensions, handshakeType⟩ := by
  subst hserver hclient hhash
  obtain ⟨hmessage, hbody⟩ := decodeAll_serverHello random publicKey hid
  have hopen := Rfc.openRecord_sealRecord S hS nullEncryptedExtensions
    (show handshakeType ≠ 0 by decide) padding
  have hsuite : (serverHello random sessionId publicKey).cipherSuite.val = [0x13, 0x03] := rfl
  have hversion : ⟨43, [0x03, 0x04]⟩ ∈ (serverHello random sessionId publicKey).extensions :=
    List.mem_cons_self
  simp only [Rfc.clientHandshake, Rfc.take_plaintextRecord, Rfc.drop_plaintextRecord, hmessage,
    hbody, hsuite, hversion, hopen, hagree, x25519Key_serverHello, ne_eq, not_true_eq_false, or_self,
    if_false, Option.bind_eq_bind, Option.bind_some]
  rfl

theorem Exchange.scalarmult_client {ent : Entropy} {w : World} {r : Record} {ch : Rfc.ClientHello}
    {c k : Block 32} (x : Exchange S ent w r.toTLSPlaintext) (h : Hello ch r)
    (hoffer : ch.OffersX25519 k) (hk : S.scalarmultBase c = some k)
    (hagree : S.Agree ent.serverPrivateKey c) :
    S.scalarmult c x.serverPublicKey = some x.sharedSecret := by
  -- the exchange parsed the message that the record holds
  have hhandshake : x.handshake = ⟨clientHelloType, UInt32.ofNat ch.encode.length, ch.encode⟩ :=
    Except.ok.inj (x.parsed.symm.trans h.parseHandshake)
  have hparsed := x.parsedHello
  rw [hhandshake, parseClientHello_encode _ hoffer.extensions_ne_nil] at hparsed
  have hshare := x.share
  rw [← Except.ok.inj hparsed] at hshare
  have hkey : x.clientPublicKey = k := eq_of_offers hoffer hshare
  rw [← hagree _ _ x.base hk, ← hkey]
  exact x.agreed

/-- A client that offered the key of its scalar, and sees only the two records of
the answer, derives what the server stored and opens the empty EncryptedExtensions. -/
theorem handshake_agreement (hS : S.OpensSealed) {ent : Entropy} {heap : Allocated} {w' : World}
    {ch : Rfc.ClientHello} {r : Record} {c k : Block 32} (hr : r.type = handshakeType)
    (hfragment : r.fragment = Rfc.handshakeMessage clientHelloType ch.encode)
    (hk : S.scalarmultBase c = some k) (hoffer : ch.OffersX25519 k)
    (hagree : S.Agree ent.serverPrivateKey c)
    (hcall : mainStateMech S ent (World.init heap) r.toTLSPlaintext = .ok (0, w')) :
    ∃ rec1 rec2, answers (World.init heap) w' = [rec1, rec2] ∧
      Rfc.clientHandshake S c r.fragment rec1 rec2 =
        some { serverSecret := w'.state.serverHandshakeTrafficSecret
               clientSecret := w'.state.clientHandshakeTrafficSecret
               serverKey := w'.state.serverWriteKey
               serverIv := w'.state.serverWriteIv
               clientKey := w'.state.clientWriteKey
               clientIv := w'.state.clientWriteIv
               content := [0x08, 0x00, 0x00, 0x02, 0x00, 0x00]
               contentType := handshakeType } := by
  rcases (mainStateMech_outcome S hcall).of_zero with ⟨x, -, rfl⟩ | ⟨htype, -⟩
  · have h : Hello ch r := ⟨[], hr, hfragment.trans (List.append_nil _).symm⟩
    have hsecret := x.scalarmult_client h hoffer hk hagree
    have hhash : S.hashSha256 (r.fragment ++ x.reply) =
        S.hashSha256 (r.fragment ++
          serverHelloMessage ent.random x.clientHello.sessionId x.serverPublicKey) := rfl
    exact ⟨_, _, x.answers_world, clientHandshake_answer hS ent.random r.fragment (ent.rand % 101)
      x.clientHello.length_sessionId_lt hsecret hhash rfl rfl⟩
  · exact absurd hr htype

theorem agree_sample : Sodium.reference.Agree sampleEntropy.serverPrivateKey sampleScalar := by
  intro pa pb hpa hpb
  cases hpa
  cases hpb
  have heq : Crypto.x25519 sampleEntropy.serverPrivateKey samplePoint =
      Crypto.x25519 sampleScalar
        (Crypto.x25519 sampleEntropy.serverPrivateKey Crypto.basePoint) := by
    decide +kernel
  simp only [Sodium.reference]
  rw [← heq]
  rfl

/-- The call on the sample ClientHello is answered, and the client agrees. -/
theorem handshake_agreement_sample :
    ∃ w' rec1 rec2 session,
      mainStateMech Sodium.reference sampleEntropy (World.init sampleHeap)
          sampleRecord.toTLSPlaintext = .ok (0, w') ∧
        answers (World.init sampleHeap) w' = [rec1, rec2] ∧
        Rfc.clientHandshake Sodium.reference sampleScalar sampleRecord.fragment rec1 rec2 =
          some session ∧
        session.serverKey = w'.state.serverWriteKey := by
  obtain ⟨x, hcall⟩ := mainStateMech_sample ⟨sampleHeap, [], .nil⟩ hello_sampleRecord
  obtain ⟨rec1, rec2, hanswers, hclient⟩ := handshake_agreement (c := sampleScalar)
    Sodium.opensSealed_reference rfl rfl rfl (offers_minimalHello _ samplePoint) agree_sample hcall
  exact ⟨_, rec1, rec2, _, hcall, hanswers, hclient, rfl⟩

end TLS13
