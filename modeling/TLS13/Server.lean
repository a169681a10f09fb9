import TLS13.Lib.Run
import TLS13.StateMachine

/-! What a call of the state machine can do. Each function of the handshake is
given by the messages it sends, in the wire grammar, and by the reference key
schedule; a call then has one of six outcomes, and the statements about runs go
by cases on them. -/

namespace TLS13

open Lib

variable (S : Sodium)

/-! ### The two messages of the server -/

/-- The ServerHello that is sent whatever the client offered. -/
def serverHello (random : Block 32) (sessionId : Bytes) (publicKey : Block 32) :
    Rfc.ServerHello where
  legacyVersion
  random
  sessionIdEcho := sessionId
  cipherSuite := tlsChacha20Poly1305Sha256
  compressionMethod := 0
  extensions :=
    [⟨supportedVersionsExtensionType, [0x03, 0x04]⟩,
      ⟨keyShareExtensionType, keyShareData namedGroupX25519 publicKey.val⟩]

def serverHelloMessage (random : Block 32) (sessionId : Bytes) (publicKey : Block 32) : Bytes :=
  Rfc.handshakeMessage serverHelloType (serverHello random sessionId publicKey).encode

/-- EncryptedExtensions with no extension. -/
def nullEncryptedExtensions : Bytes := Rfc.handshakeMessage encryptedExtensions [0, 0]

example : nullEncryptedExtensions = [8, 0, 0, 2, 0, 0] := by decide

theorem length_serverHello_extensions (random : Block 32) (sessionId : Bytes)
    (publicKey : Block 32) :
    (Rfc.encodeExtensions (serverHello random sessionId publicKey).extensions).length = 46 := by
  simp [serverHello, Rfc.encodeExtensions, keyShareData]

theorem length_serverHello (random : Block 32) (sessionId : Bytes) (publicKey : Block 32) :
    (serverHello random sessionId publicKey).encode.length = 86 + sessionId.length := by
  have hext := length_serverHello_extensions random sessionId publicKey
  simp only [Rfc.ServerHello.encode, List.length_append, length_vec, Block.length_val, length_be,
    hext]
  simp only [serverHello]
  omega

theorem length_serverHelloMessage (random : Block 32) (sessionId : Bytes) (publicKey : Block 32) :
    (serverHelloMessage random sessionId publicKey).length = 90 + sessionId.length := by
  rw [serverHelloMessage, Rfc.length_handshakeMessage, length_serverHello]
  omega

/-- The key that a client finds in the ServerHello is the server's. -/
theorem x25519Key_serverHello (random : Block 32) (sessionId : Bytes) (publicKey : Block 32) :
    (serverHello random sessionId publicKey).x25519Key = some publicKey := by
  have hkey : publicKey.val.length < 256 ^ 2 := by
    rw [publicKey.length_val]
    norm_num
  have hdecode : decodeAll (do return (← number 2, ← takeVec 2))
      (keyShareData namedGroupX25519 publicKey.val) = some (0x001D, publicKey.val) :=
    decodeAll_eq ((decodes_number namedGroupX25519.toNat_lt).bind ((decodes_takeVec hkey).last rfl))
  have hfind : (serverHello random sessionId publicKey).extensions.find? (·.type = 51) =
      some ⟨keyShareExtensionType, keyShareData namedGroupX25519 publicKey.val⟩ := rfl
  simp only [Rfc.ServerHello.x25519Key, hfind, Option.bind_eq_bind, Option.bind_some, hdecode,
    publicKey.length_val, and_self, dite_true]

/-! ### What the handshake does to the world -/

namespace World

/-- The shared secret is stored, and the ServerHello `sh` written and absorbed. -/
def answer (w : World) (sharedSecret : Block 32) (sh : Bytes) : World :=
  ((w.storeSharedSecret sharedSecret).log (.wrote (Rfc.plaintextRecord handshakeType sh))).absorb sh

/-- The keys of the reference schedule are installed. -/
def establish (w : World) : World :=
  let hash := S.hashSha256 w.state.hashState.absorbed
  let sharedSecret := w.state.sharedSecret
  let server := Rfc.serverHandshakeTrafficSecret S sharedSecret hash
  let client := Rfc.clientHandshakeTrafficSecret S sharedSecret hash
  let state :=
    { w.state with
      state := .encrypted
      handshakeSecret := Rfc.handshakeSecret S sharedSecret
      serverHandshakeTrafficSecret := server
      clientHandshakeTrafficSecret := client
      serverWriteKey := Rfc.writeKey S server
      serverWriteIv := Rfc.writeIv S server
      clientWriteKey := Rfc.writeKey S client
      clientWriteIv := Rfc.writeIv S client
      serverNonceCounter := 0
      clientNonceCounter := 0 }
  (w.setState state).log (.installed (Rfc.writeKey S server))

/-- The EncryptedExtensions are sealed and written. -/
def extend (rand : ℕ) (w : World) : World :=
  let nonce := Rfc.recordNonce w.state.serverWriteIv w.state.serverNonceCounter.toNat
  let r : TLSPlaintext := ⟨handshakeType, [], 6, nullEncryptedExtensions⟩
  (w.log (.sealed r w.state.serverWriteKey nonce)).log
    (.wrote (Rfc.sealRecord S nullEncryptedExtensions handshakeType (rand % 101)
      w.state.serverWriteKey nonce))

end World

/-- The session id that a parsed ClientHello holds. -/
def ClientHello.sessionId (ch : ClientHello) : Bytes :=
  ch.legacySessionId.take ch.legacySessionIdLength.toNat

theorem ClientHello.length_sessionId_lt (ch : ClientHello) : ch.sessionId.length < 256 := by
  have := ch.legacySessionIdLength.toNat_lt
  rw [sessionId, List.length_take]
  omega

/-- The values that the handshake goes through on the way to the record, each by
the function that computes it: the extensions and their length, the body, the
message, and the record around it. -/
structure ReplySteps (random : Block 32) (ch : ClientHello) (publicKey : Block 32)
    (extensions : ExtensionArray) (length : ℕ) (body message record : Bytes) : Prop where
  extensions_eq : (do
    let extensions ← addSupportedVersions ⟨0, []⟩
    addKeyShare extensions namedGroupX25519 publicKey.val 32) = .ok extensions
  length_eq : extensionsLength extensions = .ok length
  body_eq : processServerHello (createServerHello random.val ch.legacySessionIdLength
    ch.legacySessionId tlsChacha20Poly1305Sha256.val (UInt16.ofNat length) extensions) = .ok body
  message_eq : processHandshake ⟨serverHelloType, UInt32.ofNat body.length, body⟩ = .ok message
  record_eq : processRecord ⟨handshakeType, [0x03, 0x03], UInt16.ofNat message.length, message⟩ =
    .ok record

/-- The extensions of the answer, as an array. -/
def replyExtensions (publicKey : Block 32) : ExtensionArray :=
  ExtensionArray.ofRfc
    [⟨supportedVersionsExtensionType, [0x03, 0x04]⟩,
      ⟨keyShareExtensionType, keyShareData namedGroupX25519 publicKey.val⟩]

/-- The steps build the ServerHello of the grammar. -/
theorem replySteps (random : Block 32) {ch : ClientHello} (publicKey : Block 32)
    (hid : ch.legacySessionIdLength.toNat ≤ ch.legacySessionId.length) :
    ReplySteps random ch publicKey (replyExtensions publicKey) 46
      (serverHello random ch.sessionId publicKey).encode
      (serverHelloMessage random ch.sessionId publicKey)
      (Rfc.plaintextRecord handshakeType (serverHelloMessage random ch.sessionId publicKey)) := by
  have hidLt := ch.length_sessionId_lt
  have hbody := length_serverHello random ch.sessionId publicKey
  have hmessage := length_serverHelloMessage random ch.sessionId publicKey
  have hext := length_serverHello_extensions random ch.sessionId publicKey
  have hcount : (serverHello random ch.sessionId publicKey).extensions.length < 256 := by
    show 2 < 256
    norm_num
  have hversions : addSupportedVersions ⟨0, []⟩ =
      .ok (ExtensionArray.ofRfc [⟨supportedVersionsExtensionType, [0x03, 0x04]⟩]) :=
    @addSupportedVersions_ofRfc [] (by decide)
  have hshare : addKeyShare (ExtensionArray.ofRfc [⟨supportedVersionsExtensionType, [0x03, 0x04]⟩])
      namedGroupX25519 publicKey.val 32 = .ok (replyExtensions publicKey) :=
    addKeyShare_ofRfc (by decide) namedGroupX25519 publicKey.length_val
  have hlength := extensionsLength_ofRfc hcount (by omega)
  have hencode := processServerHello_eq random ch.legacySessionIdLength ch.legacySessionId
    tlsChacha20Poly1305Sha256 hid hcount (by omega)
  rw [hext] at hlength hencode
  refine ⟨?_, hlength, hencode, processHandshake_message serverHelloType (by omega), ?_⟩
  · rw [hversions]
    exact hshare
  · exact processRecord_ofFragment handshakeType (by omega)

theorem sendServerHello_eq {ent : Entropy} {w : World} {ch : ClientHello} (publicKey : Block 32)
    (hid : ch.legacySessionIdLength.toNat ≤ ch.legacySessionId.length) :
    sendServerHello ent w ch publicKey =
      .ok (0, (w.log (.wrote (Rfc.plaintextRecord handshakeType
        (serverHelloMessage ent.random ch.sessionId publicKey)))).absorb
          (serverHelloMessage ent.random ch.sessionId publicKey)) := by
  have steps := replySteps ent.random publicKey hid
  obtain ⟨extensions, hversions, hshare⟩ := Checked.bind_eq_ok.mp steps.extensions_eq
  have hsize : (serverHelloMessage ent.random ch.sessionId publicKey).length < 256 ^ 2 := by
    have hidLt := ch.length_sessionId_lt
    rw [length_serverHelloMessage]
    omega
  have hread := (Record.ofFragment handshakeType _ hsize).readBytes_fragment
  simp only [Record.ofFragment] at hread
  simp only [sendServerHello, hversions, hshare, steps.length_eq, steps.body_eq, steps.message_eq,
    steps.record_eq, hread, Checked.bind_ok, Checked.pure_eq]

theorem deriveKeys_eq (w : World) :
    deriveKeys S (w.setState { w.state with state := .encrypted }) = .ok (w.establish S) := by
  simp only [deriveKeys, World.setState, processHandshakeSecret_eq,
    processServerHandshakeTrafficSecret_eq, processClientHandshakeTrafficSecret_eq,
    generateWriteKey_eq, generateWriteIv_eq, Checked.bind_ok, Checked.pure_eq]
  rfl

theorem encryptRecord_nullEncryptedExtensions (rand : ℕ) (key : Block 32) (nonce : Block 12) :
    encryptRecord S rand ⟨handshakeType, [], 6, nullEncryptedExtensions⟩ key nonce =
      .ok (Rfc.sealRecord S nullEncryptedExtensions handshakeType (rand % 101) key nonce) := by
  have hlt : (6 : UInt16).toNat + 1 + rand % 101 < 256 ^ 2 := by
    show 6 + 1 + rand % 101 < 256 ^ 2
    omega
  exact encryptRecord_eq S rand key nonce rfl hlt

theorem sendNullEncryptedExtensions_eq {ent : Entropy} {w : World}
    (h : w.state.state = .encrypted) :
    sendNullEncryptedExtensions S ent w = .ok (0, w.extend S ent.rand) := by
  have hmessage : processHandshake ⟨encryptedExtensions, 2, List.replicate 8 0x00⟩ =
      .ok nullEncryptedExtensions := rfl
  have hlength : UInt16.ofNat nullEncryptedExtensions.length = 6 := rfl
  simp only [sendNullEncryptedExtensions, h, ne_eq, not_true_eq_false, if_false, hmessage, hlength,
    generateNonce_eq, encryptRecord_nullEncryptedExtensions, Checked.bind_ok, Checked.pure_eq]
  rfl

/-- A session id shorter than its length is read past its end. -/
theorem sendServerHello_eq_ok {ent : Entropy} {w w' : World} {ch : ClientHello} {publicKey : Block 32}
    {rc : ℤ} (h : sendServerHello ent w ch publicKey = .ok (rc, w')) :
    ch.legacySessionIdLength.toNat ≤ ch.legacySessionId.length := by
  simp only [sendServerHello, processServerHello, createServerHello, Checked.bind_eq_ok] at h
  obtain ⟨_, _, _, _, _, _, _, ⟨_, _, _, _, _, hread, _⟩, _⟩ := h
  exact (readBytes_eq_ok.mp hread).1

/-- The handshake answers, or leaves everything but the shared secret alone. -/
theorem clientHelloServerHelloHandshake_eq_ok {ent : Entropy} {w w' : World} {ch : ClientHello}
    {rc : ℤ} (h : clientHelloServerHelloHandshake S ent w ch = .ok (rc, w')) :
    (rc ≠ 0 ∧ ∃ sharedSecret, w' = w.storeSharedSecret sharedSecret) ∨
      (rc = 0 ∧ ∃ publicKey clientPublicKey sharedSecret,
        w.state.cipherSuite = tlsChacha20Poly1305Sha256Num ∧
        S.scalarmultBase ent.serverPrivateKey = some publicKey ∧
        getX25519KeyShare ch.extensions = .ok clientPublicKey ∧
        S.scalarmult ent.serverPrivateKey clientPublicKey = some sharedSecret ∧
        ch.legacySessionIdLength.toNat ≤ ch.legacySessionId.length ∧
        w' = w.answer sharedSecret (serverHelloMessage ent.random ch.sessionId publicKey)) := by
  unfold clientHelloServerHelloHandshake at h
  split at h
  · rename_i hsuite
    cases hbase : S.scalarmultBase ent.serverPrivateKey with
    | none =>
      rw [hbase] at h
      cases h
      exact .inl ⟨by decide, w.state.sharedSecret, rfl⟩
    | some publicKey =>
      simp only [hbase, Checked.bind_eq_ok] at h
      obtain ⟨clientPublicKey, hshare, h⟩ := h
      cases hagree : S.scalarmult ent.serverPrivateKey clientPublicKey with
      | none =>
        simp only [hagree] at h
        cases h
        exact .inl ⟨by decide, _, rfl⟩
      | some sharedSecret =>
        simp only [hagree] at h
        have hid := sendServerHello_eq_ok h
        rw [sendServerHello_eq publicKey hid] at h
        cases h
        exact .inr ⟨rfl, publicKey, clientPublicKey, sharedSecret, hsuite, rfl, hshare, hagree, hid,
          rfl⟩
  · cases h
    exact .inl ⟨by decide, w.state.sharedSecret, rfl⟩

/-! ### The outcomes of a call -/

/-- The byte strings written between two worlds of a run. -/
def answers (w w' : World) : List Bytes :=
  (w'.trace.drop w.trace.length).filterMap fun e =>
    match e with
    | .wrote bs => some bs
    | _ => none

/-- What a ClientHello record is answered with: the parsed message, the key pair
of the server, the share of the client and the secret they agree on. -/
structure Exchange (ent : Entropy) (w : World) (r : TLSPlaintext) where
  handshake : Handshake
  clientHello : ClientHello
  serverPublicKey : Block 32
  clientPublicKey : Block 32
  sharedSecret : Block 32
  parsed : parseHandshake r.fragment r.length.toNat = .ok handshake
  isClientHello : handshake.msgType = clientHelloType
  parsedHello : parseClientHello handshake.body handshake.length.toNat = .ok clientHello
  suite : w.state.cipherSuite = tlsChacha20Poly1305Sha256Num
  base : S.scalarmultBase ent.serverPrivateKey = some serverPublicKey
  share : getX25519KeyShare clientHello.extensions = .ok clientPublicKey
  agreed : S.scalarmult ent.serverPrivateKey clientPublicKey = some sharedSecret
  idSize : clientHello.legacySessionIdLength.toNat ≤ clientHello.legacySessionId.length

namespace Exchange

variable {S} {ent : Entropy} {w : World} {r : TLSPlaintext}

/-- The ServerHello that answers. -/
def reply (x : Exchange S ent w r) : Bytes :=
  serverHelloMessage ent.random x.clientHello.sessionId x.serverPublicKey

/-- The world after the answer. -/
def world (x : Exchange S ent w r) : World :=
  ((((w.log (.received r)).absorb r.fragment).answer x.sharedSecret x.reply).establish S).extend S
    ent.rand

theorem absorbed_world (x : Exchange S ent w r) :
    x.world.state.hashState.absorbed =
      w.state.hashState.absorbed ++ r.fragment ++ x.reply := rfl

/-- The five events of an answered call, by the key and IV it installs. -/
theorem trace_world (x : Exchange S ent w r) :
    x.world.trace = w.trace ++
      [.received r, .wrote (Rfc.plaintextRecord handshakeType x.reply),
        .installed x.world.state.serverWriteKey,
        .sealed ⟨handshakeType, [], 6, nullEncryptedExtensions⟩ x.world.state.serverWriteKey
          (Rfc.recordNonce x.world.state.serverWriteIv 0),
        .wrote (Rfc.sealRecord S nullEncryptedExtensions handshakeType (ent.rand % 101)
          x.world.state.serverWriteKey (Rfc.recordNonce x.world.state.serverWriteIv 0))] := by
  simp only [world, World.extend, World.establish, World.answer, World.log, World.absorb,
    World.setState, World.storeSharedSecret, List.append_assoc]
  rfl

theorem answers_world (x : Exchange S ent w r) :
    answers w x.world = [Rfc.plaintextRecord handshakeType x.reply,
      Rfc.sealRecord S nullEncryptedExtensions handshakeType (ent.rand % 101)
        x.world.state.serverWriteKey (Rfc.recordNonce x.world.state.serverWriteIv 0)] := by
  rw [answers, x.trace_world, List.drop_left]
  rfl

end Exchange

/-- The six outcomes of `main_state_mech`, by code and next world. -/
inductive Outcome (ent : Entropy) (w : World) (r : TLSPlaintext) : ℤ → World → Prop
  | answered (x : Exchange S ent w r) : r.type = handshakeType → Outcome ent w r 0 x.world
  | rejected {hs : Handshake} (sharedSecret : Block 32) : r.type = handshakeType →
      parseHandshake r.fragment r.length.toNat = .ok hs → hs.msgType = clientHelloType →
      Outcome ent w r (-3)
        (((w.log (.received r)).absorb r.fragment).storeSharedSecret sharedSecret)
  | otherMessage {hs : Handshake} : r.type = handshakeType →
      parseHandshake r.fragment r.length.toNat = .ok hs → hs.msgType ≠ clientHelloType →
      Outcome ent w r (-2) (w.log (.received r))
  | early : r.type = appliactionType → w.state.state = .unencrypted →
      Outcome ent w r (-40)
        ((w.log (.received r)).log
          (.wrote (processFullAlertSimple ⟨fatalAlert, unexpectedMessageAlert⟩)))
  | ignored : r.type ≠ handshakeType → (r.type = appliactionType → w.state.state = .encrypted) →
      Outcome ent w r 0 (w.log (.received r))
  | unknown : r.type ≠ handshakeType → r.type ≠ alertType → r.type ≠ changeCipherSpecType →
      r.type ≠ appliactionType → Outcome ent w r (-50) (w.log (.received r))

/-- A call that returns 0 answered a ClientHello or passed over another record. -/
theorem Outcome.of_zero {ent : Entropy} {w w' : World} {r : TLSPlaintext}
    (h : Outcome S ent w r 0 w') :
    (∃ x : Exchange S ent w r, r.type = handshakeType ∧ w' = x.world) ∨
      (r.type ≠ handshakeType ∧ w' = w.log (.received r)) := by
  generalize hrc : (0 : ℤ) = rc at h
  cases h with
  | answered x htype => exact .inl ⟨x, htype, rfl⟩
  | rejected _ _ _ _ => exact absurd hrc (by decide)
  | otherMessage _ _ _ => exact absurd hrc (by decide)
  | early _ _ => exact absurd hrc (by decide)
  | ignored htype _ => exact .inr ⟨htype, rfl⟩
  | unknown _ _ _ _ => exact absurd hrc (by decide)

/-- What the hash has absorbed stays, whatever a call does. -/
theorem Outcome.absorbed_prefix {ent : Entropy} {w w' : World} {r : TLSPlaintext} {rc : ℤ}
    (h : Outcome S ent w r rc w') :
    w.state.hashState.absorbed <+: w'.state.hashState.absorbed := by
  cases h with
  | answered x _ =>
    rw [x.absorbed_world, List.append_assoc]
    exact List.prefix_append _ _
  | rejected _ _ _ _ => exact List.prefix_append _ _
  | otherMessage _ _ _ | early _ _ | ignored _ _ | unknown _ _ _ _ => exact List.prefix_rfl

theorem handshake_of_exchange {ent : Entropy} {w : World} {r : TLSPlaintext}
    (x : Exchange S ent w r) :
    clientHelloServerHelloHandshake S ent ((w.log (.received r)).absorb r.fragment) x.clientHello =
      .ok (0, ((w.log (.received r)).absorb r.fragment).answer x.sharedSecret x.reply) := by
  have hsuite : ((w.log (.received r)).absorb r.fragment).state.cipherSuite =
      tlsChacha20Poly1305Sha256Num := x.suite
  simp only [clientHelloServerHelloHandshake, if_pos hsuite, x.base, x.share, x.agreed,
    Checked.bind_ok]
  exact sendServerHello_eq x.serverPublicKey x.idSize

/-- With an exchange, the handshake goes through. -/
theorem handleHandshake_of_exchange {ent : Entropy} {w : World} {r : Record}
    (x : Exchange S ent w r.toTLSPlaintext) :
    handleHandshake S ent (w.log (.received r.toTLSPlaintext)) r.toTLSPlaintext =
      .ok (0, x.world) := by
  have hsend : sendNullEncryptedExtensions S ent ((((w.log (.received r.toTLSPlaintext)).absorb
      r.fragment).answer x.sharedSecret x.reply).establish S) = .ok (0, x.world) :=
    sendNullEncryptedExtensions_eq S rfl
  simp only [handleHandshake, x.parsed, x.isClientHello, x.parsedHello, r.readBytes_fragment,
    handshake_of_exchange, deriveKeys_eq, hsend, Checked.bind_ok, ne_eq, not_true_eq_false, if_false]
  rfl

/-- The branch for handshake records, read backwards. -/
theorem handleHandshake_eq_ok {ent : Entropy} {w w' : World} {r : Record} {rc : ℤ}
    (h : handleHandshake S ent (w.log (.received r.toTLSPlaintext)) r.toTLSPlaintext =
      .ok (rc, w')) (htype : r.type = handshakeType) :
    Outcome S ent w r.toTLSPlaintext rc w' := by
  have hrun := h
  simp only [handleHandshake, Checked.bind_eq_ok] at h
  obtain ⟨hs, hparse, h⟩ := h
  by_cases hmsg : hs.msgType = clientHelloType
  · rw [if_neg (not_not.mpr hmsg)] at h
    simp only [r.readBytes_fragment, Checked.bind_eq_ok, Except.ok.injEq] at h
    obtain ⟨ch, hch, _, rfl, ⟨rc', w1⟩, hshake, h⟩ := h
    rcases clientHelloServerHelloHandshake_eq_ok S hshake with ⟨hrc, sharedSecret, rfl⟩ |
      ⟨-, publicKey, clientPublicKey, sharedSecret, hsuite, hbase, hshare, hagree, hid, -⟩
    · rw [if_pos hrc] at h
      cases h
      exact .rejected sharedSecret htype hparse hmsg
    · let x : Exchange S ent w r.toTLSPlaintext :=
        ⟨hs, ch, publicKey, clientPublicKey, sharedSecret, hparse, hmsg, hch, hsuite, hbase, hshare,
          hagree, hid⟩
      rw [handleHandshake_of_exchange S x] at hrun
      cases hrun
      exact .answered x htype
  · rw [if_pos hmsg] at h
    cases h
    exact .otherMessage htype hparse hmsg

theorem mainStateMech_handshake {ent : Entropy} {w : World} {r : Record}
    (htype : r.type = handshakeType) :
    mainStateMech S ent w r.toTLSPlaintext =
      handleHandshake S ent (w.log (.received r.toTLSPlaintext)) r.toTLSPlaintext := by
  simp only [mainStateMech, r.readBytes_version, Checked.bind_ok, if_pos htype]

/-- What `main_state_mech` does with the body of a ClientHello message. -/
def handleClientHello (ent : Entropy) (w : World) (body : Bytes) : Checked (ℤ × World) := do
  let clientHello ← parseClientHello body body.length
  clientHelloServerHelloHandshake S ent w clientHello

/-- The call is the handling of the body, and ends with -3 when that gives a code. -/
theorem mainStateMech_body {r : Record} {hs : Handshake} (htype : r.type = handshakeType)
    (hparse : parseHandshake r.fragment r.length.toNat = .ok hs)
    (hmsg : hs.msgType = clientHelloType) (ent : Entropy) (w : World) :
    ∃ next : ℤ × World → Checked (ℤ × World),
      (∀ rc w', rc ≠ 0 → next (rc, w') = .ok (-3, w')) ∧
        mainStateMech S ent w r.toTLSPlaintext =
          handleClientHello S ent ((w.log (.received r.toTLSPlaintext)).absorb r.fragment) hs.body >>=
            next := by
  rw [mainStateMech_handshake S htype]
  simp only [handleHandshake, handleClientHello, hparse, hmsg, r.readBytes_fragment, bind_assoc,
    Checked.bind_ok, ne_eq, not_true_eq_false, if_false]
  refine ⟨_, ?_, rfl⟩
  intro rc w' hrc
  simp only [if_pos hrc]
  rfl

theorem mainStateMech_of_exchange {ent : Entropy} {w : World} {r : Record}
    (htype : r.type = handshakeType) (x : Exchange S ent w r.toTLSPlaintext) :
    mainStateMech S ent w r.toTLSPlaintext = .ok (0, x.world) := by
  rw [mainStateMech_handshake S htype]
  exact handleHandshake_of_exchange S x

/-- A call that returns has one of the outcomes. -/
theorem mainStateMech_outcome {ent : Entropy} {w w' : World} {r : Record} {rc : ℤ}
    (h : mainStateMech S ent w r.toTLSPlaintext = .ok (rc, w')) :
    Outcome S ent w r.toTLSPlaintext rc w' := by
  simp only [mainStateMech, Checked.bind_eq_ok] at h
  obtain ⟨_, -, h⟩ := h
  split at h
  · exact handleHandshake_eq_ok S h ‹_›
  · rename_i htype
    split at h
    · rename_i halert
      simp only [Checked.bind_eq_ok] at h
      obtain ⟨_, -, _, -, h⟩ := h
      cases h
      exact .ignored htype fun happ => absurd (halert.symm.trans happ) (by decide)
    · rename_i halert
      split at h
      · rename_i hccs
        cases h
        exact .ignored htype fun happ => absurd (hccs.symm.trans happ) (by decide)
      · rename_i hccs
        split at h
        · rename_i happ
          by_cases hstate : w.state.state = .unencrypted
          · have hstate' : (w.log (.received r.toTLSPlaintext)).state.state = .unencrypted := hstate
            simp only [handleApplicationData, if_pos hstate'] at h
            cases h
            exact .early happ hstate
          · have hstate' : (w.log (.received r.toTLSPlaintext)).state.state ≠ .unencrypted := hstate
            simp only [handleApplicationData, if_neg hstate'] at h
            cases h
            refine .ignored htype fun _ => ?_
            cases hs : w.state.state with
            | unencrypted => exact absurd hs hstate
            | encrypted => rfl
        · rename_i happ
          cases h
          exact .unknown htype halert hccs happ

/-! ### Runs -/

/-- One call: what it drew, the record it was given and the code it returned. -/
structure Call where
  entropy : Entropy
  record : Record
  code : ℤ

def Call.Step (w : World) (c : Call) (w' : World) : Prop :=
  mainStateMech S c.entropy w c.record.toTLSPlaintext = .ok (c.code, w')

/-- Calls from an initialised state that all return, with any codes. -/
def Reachable (w : World) : Prop := ∃ heap calls, Run (Call.Step S) (World.init heap) calls w

/-- An invariant of every outcome holds in every reachable state. -/
theorem Reachable.invariant (Inv : World → Prop) (hinit : ∀ heap, Inv (World.init heap))
    (hstep : ∀ {ent w r rc w'}, Inv w → Outcome S ent w r rc w' → Inv w')
    {w : World} (h : Reachable S w) : Inv w := by
  obtain ⟨heap, calls, hrun⟩ := h
  exact hrun.invariant (fun ha hl => hstep ha (mainStateMech_outcome S hl)) (hinit heap)

/-- The suite that `init_TLS_SERVER_STATE` sets never changes. -/
theorem Reachable.cipherSuite {w : World} (h : Reachable S w) :
    w.state.cipherSuite = tlsChacha20Poly1305Sha256Num := by
  refine Reachable.invariant S (fun w => w.state.cipherSuite = tlsChacha20Poly1305Sha256Num)
    (fun _ => rfl) ?_ h
  intro ent w r rc w' hw hout
  cases hout <;> exact hw

end TLS13
