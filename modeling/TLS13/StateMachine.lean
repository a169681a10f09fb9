import TLS13.KeySchedule
import TLS13.Wrappers.Record
import TLS13.Wrappers.Handshake
import TLS13.Wrappers.ServerHello

/-! The server's state machine, `state_machine.c`. One call of `main_state_mech`
takes a record and what it draws from outside, and returns a code with the next
state. The trace beside the state lists what was received, written, sealed and
installed; no function reads it, and the statements about runs are about it. -/

namespace TLS13

open Lib

variable (S : Sodium)

inductive TLSState
  | unencrypted
  | encrypted
  deriving DecidableEq, Repr

/-- The fields of `TLS_SERVER_STATE` that the state machine uses. -/
structure TLSServerState where
  state : TLSState
  cipherSuite : UInt16
  sharedSecret : Block 32
  handshakeSecret : Block 32
  hashState : HashState
  serverHandshakeTrafficSecret : Block 32
  clientHandshakeTrafficSecret : Block 32
  serverWriteKey : Block 32
  clientWriteKey : Block 32
  serverWriteIv : Block 12
  clientWriteIv : Block 12
  serverNonceCounter : UInt64
  clientNonceCounter : UInt64
  deriving DecidableEq

/-- The buffers that `init_TLS_SERVER_STATE` allocates, with whatever they hold. -/
structure Allocated where
  secret : ℕ → Block 32
  iv : ℕ → Block 12

/-- A zeroed struct after `init_TLS_SERVER_STATE`. -/
def initTLSServerState (heap : Allocated) : TLSServerState where
  state := .unencrypted
  cipherSuite := tlsChacha20Poly1305Sha256Num
  sharedSecret := heap.secret 0
  handshakeSecret := heap.secret 1
  hashState := HashState.init
  serverHandshakeTrafficSecret := heap.secret 2
  clientHandshakeTrafficSecret := heap.secret 3
  serverWriteKey := heap.secret 4
  clientWriteKey := heap.secret 5
  serverWriteIv := heap.iv 0
  clientWriteIv := heap.iv 1
  serverNonceCounter := 0
  clientNonceCounter := 0

/-- What one call draws from outside: two fillings of `randombytes_buf` and a `rand`. -/
structure Entropy where
  serverPrivateKey : Block 32
  random : Block 32
  rand : ℕ

inductive Event
  | received (record : TLSPlaintext)
  | wrote (bytes : Bytes)
  | installed (key : Block 32)
  | sealed (record : TLSPlaintext) (key : Block 32) (nonce : Block 12)
  deriving DecidableEq

structure World where
  state : TLSServerState
  trace : List Event
  deriving DecidableEq

namespace World

def init (heap : Allocated) : World := ⟨initTLSServerState heap, []⟩

def setState (w : World) (state : TLSServerState) : World := { w with state }

def log (w : World) (e : Event) : World := { w with trace := w.trace ++ [e] }

/-- `crypto_hash_sha256_update(&state->hash_state, bs)` -/
def absorb (w : World) (bs : Bytes) : World :=
  { w with state := { w.state with hashState := w.state.hashState.update bs } }

/-- `crypto_scalarmult` writes its output into `state->shared_secret`. -/
def storeSharedSecret (w : World) (sharedSecret : Block 32) : World :=
  w.setState { w.state with sharedSecret }

end World

/-! ### The handshake -/

/-- `ClientHello_ServerHello_handshake` from the random bytes on. -/
def sendServerHello (ent : Entropy) (w : World) (clientHello : ClientHello)
    (serverPublicKey : Block 32) : Checked (ℤ × World) := do
  let random := ent.random
  let extensions ← addSupportedVersions ⟨0, []⟩
  let extensions ← addKeyShare extensions namedGroupX25519 serverPublicKey.val 32
  let extensionsLength ← extensionsLength extensions
  let serverHello := createServerHello random.val clientHello.legacySessionIdLength
    clientHello.legacySessionId tlsChacha20Poly1305Sha256.val (UInt16.ofNat extensionsLength) extensions
  let serverHelloArray ← processServerHello serverHello
  let handshakeArray ← processHandshake
    { msgType := serverHelloType
      length := UInt32.ofNat serverHelloArray.length
      body := serverHelloArray }
  let r : TLSPlaintext :=
    { type := handshakeType
      legacyRecordVersion := [0x03, 0x03]
      length := UInt16.ofNat handshakeArray.length
      fragment := handshakeArray }
  let rArray ← processRecord r
  let sent ← readBytes r.fragment 0 r.length.toNat
  return (0, (w.log (.wrote rArray)).absorb sent)

/-- The suite is tested twice in the source, before the key exchange and before
the answer; both tests come out the same. -/
def clientHelloServerHelloHandshake (ent : Entropy) (w : World) (clientHello : ClientHello) :
    Checked (ℤ × World) :=
  if w.state.cipherSuite = tlsChacha20Poly1305Sha256Num then
    match S.scalarmultBase ent.serverPrivateKey with
    | none => return (-3, w)
    | some serverPublicKey => do
      let clientPublicKey ← getX25519KeyShare clientHello.extensions
      match S.scalarmult ent.serverPrivateKey clientPublicKey with
      | none =>
        let residue := S.scalarmultResidue w.state.sharedSecret ent.serverPrivateKey clientPublicKey
        return (-4, w.storeSharedSecret residue)
      | some sharedSecret =>
        sendServerHello ent (w.storeSharedSecret sharedSecret) clientHello serverPublicKey
  else return (-5, w)

/-- `hard_coded_length` is an array of two `unsigned`, so eight bytes. -/
def sendNullEncryptedExtensions (ent : Entropy) (w : World) : Checked (ℤ × World) :=
  if w.state.state ≠ .encrypted then return (-1, w)
  else do
    let hardCodedLength : Bytes := List.replicate 8 0x00
    let hsArray ← processHandshake
      { msgType := encryptedExtensions, length := 2, body := hardCodedLength }
    let r : TLSPlaintext :=
      { type := handshakeType
        legacyRecordVersion := []
        length := UInt16.ofNat hsArray.length
        fragment := hsArray }
    let nonce := generateNonce w.state.serverWriteIv w.state.serverNonceCounter
    let rArray ← encryptRecord S ent.rand r w.state.serverWriteKey nonce
    return (0, (w.log (.sealed r w.state.serverWriteKey nonce)).log (.wrote rArray))

/-- The derivations between the ServerHello and the EncryptedExtensions. -/
def deriveKeys (w : World) : Checked World := do
  let hash := getHash S w.state.hashState
  let sharedSecret := w.state.sharedSecret
  let handshakeSecret ← processHandshakeSecret S sharedSecret none
  let serverHandshakeTrafficSecret ← processServerHandshakeTrafficSecret S sharedSecret hash
  let clientHandshakeTrafficSecret ← processClientHandshakeTrafficSecret S sharedSecret hash
  let serverWriteKey ← generateWriteKey S serverHandshakeTrafficSecret
  let serverWriteIv ← generateWriteIv S serverHandshakeTrafficSecret
  let clientWriteKey ← generateWriteKey S clientHandshakeTrafficSecret
  let clientWriteIv ← generateWriteIv S clientHandshakeTrafficSecret
  let state :=
    { w.state with
      handshakeSecret, serverHandshakeTrafficSecret, clientHandshakeTrafficSecret, serverWriteKey,
      serverWriteIv, clientWriteKey, clientWriteIv
      serverNonceCounter := 0
      clientNonceCounter := 0 }
  return (w.setState state).log (.installed serverWriteKey)

/-! ### The dispatch -/

/-- The branch of `main_state_mech` for handshake records. -/
def handleHandshake (ent : Entropy) (w : World) (record : TLSPlaintext) : Checked (ℤ × World) := do
  let handshake ← parseHandshake record.fragment record.length.toNat
  if handshake.msgType ≠ clientHelloType then return (-2, w)
  else
    let clientHello ← parseClientHello handshake.body handshake.length.toNat
    let received ← readBytes record.fragment 0 record.length.toNat
    let (rc, w) ← clientHelloServerHelloHandshake S ent (w.absorb received) clientHello
    if rc ≠ 0 then return (-3, w)
    else
      let w := w.setState { w.state with state := .encrypted }
      let w ← deriveKeys S w
      let (rc, w) ← sendNullEncryptedExtensions S ent w
      if rc ≠ 0 then return (-4, w)
      else return (0, w)

/-- The branch for application data, which the server does not read yet. -/
def handleApplicationData (w : World) : ℤ × World :=
  if w.state.state = .unencrypted then
    let alert : Alert := { level := fatalAlert, description := unexpectedMessageAlert }
    let alertOut := processFullAlertSimple alert
    (-40, w.log (.wrote alertOut))
  else (0, w)

/-- The version bytes and the alert are read to be printed, and decide nothing. -/
def mainStateMech (ent : Entropy) (w : World) (record : TLSPlaintext) : Checked (ℤ × World) := do
  let _version ← readBytes record.legacyRecordVersion 0 2
  let w := w.log (.received record)
  if record.type = handshakeType then handleHandshake S ent w record
  else if record.type = alertType then
    let _level ← readByte record.fragment 0
    let _description ← readByte record.fragment 1
    return (0, w)
  else if record.type = changeCipherSpecType then return (0, w)
  else if record.type = appliactionType then return handleApplicationData w
  else return (-50, w)

end TLS13
