import TLS13.Lib.Heap
import TLS13.Loop
import TLS13.Wrappers.Certificate
import TLS13.Wrappers.CertificateVerify
import TLS13.Wrappers.EncryptedExtensions

/-! The allocations of the server. Every function that the loop of `main` reaches
is here once more with its calls of `malloc`, `realloc` and `free`, in the order
of the source, and so are the builders of the messages that it does not send yet;
what they compute is taken over step by step from the functions without a heap. A
pointer that the struct of a message keeps stands beside it. -/

namespace TLS13.Memory

open Lib

/-- Programs of the server, with allocation. -/
abbrev Alloc := Allocating Fault

/-- `sizeof(Extension)`: two 16-bit fields and a pointer, aligned to eight bytes. -/
abbrev sizeofExtension : ℕ := 16

/-! ### Handshake messages and records -/

def parseHandshake (data : Bytes) (_dataLength : ℕ) : Alloc (Handshake × Allocation) := do
  let msgType ← plain (readByte data 0)
  let length ← plain (getUint24 data 1)
  let buf ← malloc length.toNat
  let body ← plain (readBytes data 4 length.toNat)
  return ({ msgType, length, body }, buf)

def processHandshake (handshake : Handshake) : Alloc (Bytes × Allocation) := do
  let length := 1 + 3 + handshake.length
  let size ← plain (bufferSize length .nullDeref)
  let buf ← malloc size
  let uint24Buf := processUint24 .little handshake.length
  let body ← plain (readBytes handshake.body 0 handshake.length.toNat)
  let arr ← plain (fill size ([handshake.msgType] ++ uint24Buf ++ body))
  return (arr, buf)

def processRecord (record : TLSPlaintext) : Alloc (Bytes × Allocation) := do
  let length := 1 + 2 + 2 + record.length.toNat
  let buf ← malloc length
  let legacyRecordVersion ← plain (readBytes record.legacyRecordVersion 0 2)
  let fragment ← plain (readBytes record.fragment 0 record.length.toNat)
  let arr ← plain
    (fill length ([record.type] ++ legacyRecordVersion ++ writeUint16 record.length ++ fragment))
  return (arr, buf)

/-! ### Extensions -/

/-- The pointers of an `ExtensionArray`: to the array, and from its entries to their data. -/
structure ExtensionPointers where
  array : Option Allocation
  data : List Allocation

/-- The copying pass, with the data buffer of each entry. -/
def copyExtensions (data : Bytes) : ℕ → ℕ → Alloc (List Extension × List Allocation)
  | 0, _ => return ([], [])
  | count + 1, iter => do
    let extensionType ← plain (readUint16 data iter)
    let extensionDataLength ← plain (readUint16 data (iter + 2))
    let buf ← malloc extensionDataLength.toNat
    let extensionData ← plain (readBytes data (iter + 4) extensionDataLength.toNat)
    let (rest, bufs) ← copyExtensions data count (iter + 4 + extensionDataLength.toNat)
    return ({ extensionType, extensionDataLength, extensionData } :: rest, buf :: bufs)

def parseExtensions (data : Bytes) (dataLength : ℕ) :
    Alloc (ExtensionArray × ExtensionPointers) := do
  let count ← plain (countExtensions data dataLength (data.length + 1) 0 0)
  let array ← malloc (count * sizeofExtension)
  let (extensions, bufs) ← copyExtensions data count 0
  return ({ length := UInt8.ofNat count, array := extensions }, { array, data := bufs })

/-- `free(ea.array[i].extension_data)` for the first `n` entries. -/
def freeData : ℕ → List Allocation → Alloc Unit
  | 0, _ => return
  | _ + 1, [] => plain (.error .overRead)
  | n + 1, buf :: bufs => do
    free buf
    freeData n bufs

def freeExtensions (ea : ExtensionArray) (ptrs : ExtensionPointers) : Alloc Unit := do
  freeData ea.length.toNat ptrs.data
  freePointer ptrs.array

def processExtensions (ea : ExtensionArray) : Alloc (Bytes × Allocation) := do
  let length ← plain (extensionsLength ea)
  let buf ← malloc length
  let es ← plain ea.entries
  let bs ← plain (writeExtensions es)
  let arr ← plain (fill length bs)
  return (arr, buf)

/-- For no byte the block is given back and the pointer is null. -/
def realloc (a : Allocation) (size : ℕ) : Alloc (Option Allocation) := do
  free a
  if size = 0 then return none
  else some <$> malloc size

def growExtensions (ea : ExtensionArray) (ptrs : ExtensionPointers) (amount : ℕ) :
    Alloc (ExtensionArray × ExtensionPointers) := do
  let length := ea.length + UInt8.ofNat amount
  let array ←
    match ptrs.array with
    | none => some <$> malloc (sizeofExtension * length.toNat)
    | some a => realloc a (sizeofExtension * length.toNat)
  plain (assert (array ≠ none))
  return ({ length, array := ea.array.take length.toNat },
    { array, data := ptrs.data.take length.toNat })

/-- Store the data pointer of the entry at `ea.length - 1`. -/
def ExtensionPointers.setLast (ptrs : ExtensionPointers) (ea : ExtensionArray) (buf : Allocation) :
    ExtensionPointers :=
  { ptrs with data := ptrs.data.take (ea.length.toNat - 1) ++ [buf] }

def addExtension (ea : ExtensionArray) (ptrs : ExtensionPointers) (type length : UInt16)
    (data : Bytes) : Alloc (ExtensionArray × ExtensionPointers) := do
  let (ea, ptrs) ← growExtensions ea ptrs 1
  let buf ← malloc length.toNat
  let extensionData ← plain (readBytes data 0 length.toNat)
  let ea ← plain
    (ea.setLast { extensionType := type, extensionDataLength := length, extensionData })
  return (ea, ptrs.setLast ea buf)

def addKeyShare (ea : ExtensionArray) (ptrs : ExtensionPointers) (group : UInt16)
    (keyExchange : Bytes) (keyExchangeLength : UInt16) :
    Alloc (ExtensionArray × ExtensionPointers) := do
  let (ea, ptrs) ← growExtensions ea ptrs 1
  let length := 2 + 2 + keyExchangeLength.toNat
  let buf ← malloc length
  let key ← plain (readBytes keyExchange 0 keyExchangeLength.toNat)
  let data ← plain (fill length (writeUint16 group ++ writeUint16 keyExchangeLength ++ key))
  let ea ← plain (ea.setLast
    { extensionType := keyShareExtensionType
      extensionDataLength := UInt16.ofNat length
      extensionData := data })
  return (ea, ptrs.setLast ea buf)

def addSupportedVersions (ea : ExtensionArray) (ptrs : ExtensionPointers) :
    Alloc (ExtensionArray × ExtensionPointers) :=
  addExtension ea ptrs supportedVersionsExtensionType 2 [0x03, 0x04]

/-! ### The hello messages -/

/-- The pointers of a `ClientHello`. -/
structure HelloPointers where
  legacySessionId : Allocation
  cipherSuites : Allocation
  legacyCompressionMethods : Allocation
  extensions : ExtensionPointers

def parseHelloFields (data : Bytes) : Alloc ((ClientHello × ℕ) × HelloPointers) := do
  let iter := 0
  let legacyVersion ← plain (readBytes data iter 2)
  let iter := iter + 2
  let random ← plain (readBytes data iter 32)
  let iter := iter + 32
  let legacySessionIdLength ← plain (readByte data iter)
  let iter := iter + 1
  let idBuf ← malloc legacySessionIdLength.toNat
  let legacySessionId ← plain (readBytes data iter legacySessionIdLength.toNat)
  let iter := iter + legacySessionIdLength.toNat
  let cipherSuitesLength ← plain (readUint16 data iter)
  let iter := iter + 2
  let suitesBuf ← malloc cipherSuitesLength.toNat
  let cipherSuites ← plain (readBytes data iter cipherSuitesLength.toNat)
  let iter := iter + cipherSuitesLength.toNat
  let legacyCompressionMethodsLength ← plain (readByte data iter)
  let iter := iter + 1
  let methodsBuf ← malloc legacyCompressionMethodsLength.toNat
  let legacyCompressionMethods ← plain (readBytes data iter legacyCompressionMethodsLength.toNat)
  let iter := iter + legacyCompressionMethodsLength.toNat
  let extensionsLength ← plain (readUint16 data iter)
  let iter := iter + 2
  return (({ legacyVersion, random, legacySessionIdLength, legacySessionId, cipherSuitesLength,
             cipherSuites, legacyCompressionMethodsLength, legacyCompressionMethods,
             extensionsLength, extensions := ⟨0, []⟩ }, iter),
    ⟨idBuf, suitesBuf, methodsBuf, ⟨none, []⟩⟩)

def parseClientHello (data : Bytes) (_dataLength : ℕ) : Alloc (ClientHello × HelloPointers) := do
  let ((ch, iter), ptrs) ← parseHelloFields data
  let (extensions, exPtrs) ← parseExtensions (data.drop iter) ch.extensionsLength.toNat
  return ({ ch with extensions }, { ptrs with extensions := exPtrs })

def freeClientHello (ch : ClientHello) (ptrs : HelloPointers) : Alloc Unit := do
  free ptrs.legacySessionId
  free ptrs.cipherSuites
  free ptrs.legacyCompressionMethods
  freeExtensions ch.extensions ptrs.extensions

/-- The buffer of `process_extensions` is not given back. -/
def processServerHello (sh : ServerHello) : Alloc (Bytes × Allocation) := do
  let length :=
    2 + 32 + 1 + sh.legacySessionIdEchoLength.toNat + 2 + 1 + 2 + sh.extensionsLength.toNat
  let buf ← malloc length
  let legacyVersion ← plain (readBytes sh.legacyVersion 0 2)
  let random ← plain (readBytes sh.random 0 32)
  let legacySessionIdEcho ←
    plain (readBytes sh.legacySessionIdEcho 0 sh.legacySessionIdEchoLength.toNat)
  let cipherSuite ← plain (readBytes sh.cipherSuite 0 2)
  let extensionsLength ← plain (extensionsLength sh.extensions)
  let (ex, _) ← processExtensions sh.extensions
  let arr ← plain (fill length (legacyVersion ++ random ++ [sh.legacySessionIdEchoLength] ++
    legacySessionIdEcho ++ cipherSuite ++ [sh.legacyCompressionMethod] ++
      writeUint16 (UInt16.ofNat extensionsLength) ++ ex))
  return (arr, buf)

variable (S : Sodium)

/-! ### Protection and key schedule -/

def encryptRecord (rand : ℕ) (record : TLSPlaintext) (key : Block 32) (nonce : Block 12) :
    Alloc (Bytes × Allocation) := do
  let paddingLength := rand % (paddingMax - paddingMin + 1) + paddingMin
  let tlsInnerPlainTextLength := UInt16.ofNat (record.length.toNat + 1 + paddingLength)
  let len := 1 + 2 + 2 + tlsInnerPlainTextLength.toNat + aeadTagLength
  let innerBuf ← malloc tlsInnerPlainTextLength.toNat
  let uint16Buf := UInt16.ofNat (len - 5)
  let additonalData : Bytes := [23, 0x03, 0x03] ++ storeUint16 (htons uint16Buf)
  let content ← plain (readBytes record.fragment 0 record.length.toNat)
  let tlsInnerPlainText ← plain (fill tlsInnerPlainTextLength.toNat
    (content ++ record.type :: List.replicate paddingLength 0))
  let cipherBuf ← malloc (tlsInnerPlainTextLength.toNat + aeadTagLength)
  let cipherText := S.aeadEncrypt tlsInnerPlainText additonalData nonce key
  let cipherTextLength := cipherText.val.length
  plain (assert (cipherTextLength = len - 5))
  plain (assert (len = 5 + cipherTextLength))
  let buf ← malloc (5 + cipherTextLength)
  let arr ← plain (fill (5 + cipherTextLength) (additonalData ++ cipherText.val))
  free innerBuf
  free cipherBuf
  return (arr, buf)

def hkdfExpandLabel (secret : Block 32) (label context : Bytes) (contextLength : UInt8)
    (length : UInt16) : Alloc (Block length.toNat) := do
  let len := 2 + 1 + 6 + label.length + 1 + contextLength.toNat
  let buf ← malloc len
  let info ← plain (hkdfExpandLabelInfo label context contextLength length)
  let out := S.kdfExpand length.toNat info secret
  free buf
  return out

def processBaseDerivedSecret : Alloc (Block 32) := do
  let zero := Block.zero hashLength
  let earlySecret := S.kdfExtract zero.val zero.val
  let emptyHash := S.hashSha256 []
  hkdfExpandLabel S earlySecret (ascii ['d', 'e', 'r', 'i', 'v', 'e', 'd']) emptyHash.val 32 32

def processHandshakeSecret (sharedSecret : Block 32) (derivedSecret : Option (Block 32)) :
    Alloc (Block 32) :=
  match derivedSecret with
  | some ds => return S.kdfExtract ds.val sharedSecret.val
  | none => do
    let ds ← processBaseDerivedSecret S
    return S.kdfExtract ds.val sharedSecret.val

def processHandshakeTrafficSecret (label : Bytes) (sharedSecret transciptHash : Block 32) :
    Alloc (Block 32) := do
  let derivedSecret ← processBaseDerivedSecret S
  let handshakeSecret ← processHandshakeSecret S sharedSecret (some derivedSecret)
  hkdfExpandLabel S handshakeSecret label transciptHash.val 32 32

def processServerHandshakeTrafficSecret (sharedSecret transciptHash : Block 32) :
    Alloc (Block 32) :=
  processHandshakeTrafficSecret S
    (ascii ['s', ' ', 'h', 's', ' ', 't', 'r', 'a', 'f', 'f', 'i', 'c']) sharedSecret transciptHash

def processClientHandshakeTrafficSecret (sharedSecret transciptHash : Block 32) :
    Alloc (Block 32) :=
  processHandshakeTrafficSecret S
    (ascii ['c', ' ', 'h', 's', ' ', 't', 'r', 'a', 'f', 'f', 'i', 'c']) sharedSecret transciptHash

def generateWriteKey (secret : Block 32) : Alloc (Block 32) :=
  hkdfExpandLabel S secret (ascii ['k', 'e', 'y']) [] 0 32

def generateWriteIv (secret : Block 32) : Alloc (Block 12) :=
  hkdfExpandLabel S secret (ascii ['i', 'v']) [] 0 12

/-! ### The state machine -/

/-- `free_record(r)`, `free_handshake(handshake)` and `free_server_hello(server_hello)`
stand at the end. -/
def sendServerHello (ent : Entropy) (w : World) (clientHello : ClientHello)
    (serverPublicKey : Block 32) : Alloc (ℤ × World) := do
  let random := ent.random
  let (extensions, ptrs) ← addSupportedVersions ⟨0, []⟩ ⟨none, []⟩
  let (extensions, ptrs) ← addKeyShare extensions ptrs namedGroupX25519 serverPublicKey.val 32
  let extensionsLength ← plain (extensionsLength extensions)
  let serverHello := createServerHello random.val clientHello.legacySessionIdLength
    clientHello.legacySessionId tlsChacha20Poly1305Sha256.val (UInt16.ofNat extensionsLength)
    extensions
  let (serverHelloArray, body) ← processServerHello serverHello
  let (handshakeArray, fragment) ← processHandshake
    { msgType := serverHelloType
      length := UInt32.ofNat serverHelloArray.length
      body := serverHelloArray }
  let version ← malloc 2
  let r : TLSPlaintext :=
    { type := handshakeType
      legacyRecordVersion := [0x03, 0x03]
      length := UInt16.ofNat handshakeArray.length
      fragment := handshakeArray }
  let (rArray, buf) ← processRecord r
  let sent ← plain (readBytes r.fragment 0 r.length.toNat)
  free buf
  free fragment
  free version
  free body
  freeExtensions extensions ptrs
  return (0, (w.log (.wrote rArray)).absorb sent)

def clientHelloServerHelloHandshake (ent : Entropy) (w : World) (clientHello : ClientHello) :
    Alloc (ℤ × World) :=
  if w.state.cipherSuite = tlsChacha20Poly1305Sha256Num then
    match S.scalarmultBase ent.serverPrivateKey with
    | none => return (-3, w)
    | some serverPublicKey => do
      let clientPublicKey ← plain (getX25519KeyShare clientHello.extensions)
      match S.scalarmult ent.serverPrivateKey clientPublicKey with
      | none =>
        let residue := S.scalarmultResidue w.state.sharedSecret ent.serverPrivateKey clientPublicKey
        return (-4, w.storeSharedSecret residue)
      | some sharedSecret =>
        sendServerHello ent (w.storeSharedSecret sharedSecret) clientHello serverPublicKey
  else return (-5, w)

/-- The version pointer of this record is null. -/
def sendNullEncryptedExtensions (ent : Entropy) (w : World) : Alloc (ℤ × World) :=
  if w.state.state ≠ .encrypted then return (-1, w)
  else do
    let hardCodedLength : Bytes := List.replicate 8 0x00
    let (hsArray, fragment) ← processHandshake
      { msgType := encryptedExtensions, length := 2, body := hardCodedLength }
    let r : TLSPlaintext :=
      { type := handshakeType
        legacyRecordVersion := []
        length := UInt16.ofNat hsArray.length
        fragment := hsArray }
    let nonce := generateNonce w.state.serverWriteIv w.state.serverNonceCounter
    let (rArray, buf) ← encryptRecord S ent.rand r w.state.serverWriteKey nonce
    free buf
    free fragment
    freePointer none
    return (0, (w.log (.sealed r w.state.serverWriteKey nonce)).log (.wrote rArray))

def deriveKeys (w : World) : Alloc World := do
  let hash := getHash S w.state.hashState
  let sharedSecret := w.state.sharedSecret
  let handshakeSecret ← processHandshakeSecret S sharedSecret none
  let serverHandshakeTrafficSecret ← processServerHandshakeTrafficSecret S sharedSecret hash
  let clientHandshakeTrafficSecret ← processClientHandshakeTrafficSecret S sharedSecret hash
  let serverWriteKey ← generateWriteKey S serverHandshakeTrafficSecret
  let serverWriteIv ← generateWriteIv S serverHandshakeTrafficSecret
  let clientWriteKey ← generateWriteKey S clientHandshakeTrafficSecret
  let clientWriteIv ← generateWriteIv S clientHandshakeTrafficSecret
  let state :=
    { w.state with
      handshakeSecret, serverHandshakeTrafficSecret, clientHandshakeTrafficSecret, serverWriteKey,
      serverWriteIv, clientWriteKey, clientWriteIv
      serverNonceCounter := 0
      clientNonceCounter := 0 }
  return (w.setState state).log (.installed serverWriteKey)

/-- The body is given back before the answer, the ClientHello after it; a call
that fails gives back neither the body nor the ClientHello that it still holds. -/
def handleHandshake (ent : Entropy) (w : World) (record : TLSPlaintext) : Alloc (ℤ × World) := do
  let (handshake, body) ← parseHandshake record.fragment record.length.toNat
  if handshake.msgType ≠ clientHelloType then return (-2, w)
  else
    let (clientHello, ptrs) ← parseClientHello handshake.body handshake.length.toNat
    free body
    let received ← plain (readBytes record.fragment 0 record.length.toNat)
    let (rc, w) ← clientHelloServerHelloHandshake S ent (w.absorb received) clientHello
    if rc ≠ 0 then return (-3, w)
    else
      freeClientHello clientHello ptrs
      let w := w.setState { w.state with state := .encrypted }
      let w ← deriveKeys S w
      let (rc, w) ← sendNullEncryptedExtensions S ent w
      if rc ≠ 0 then return (-4, w)
      else return (0, w)

def mainStateMech (ent : Entropy) (w : World) (record : TLSPlaintext) : Alloc (ℤ × World) := do
  let _version ← plain (readBytes record.legacyRecordVersion 0 2)
  let w := w.log (.received record)
  if record.type = handshakeType then handleHandshake S ent w record
  else if record.type = alertType then
    let _level ← plain (readByte record.fragment 0)
    let _description ← plain (readByte record.fragment 1)
    return (0, w)
  else if record.type = changeCipherSpecType then return (0, w)
  else if record.type = appliactionType then return handleApplicationData w
  else return (-50, w)

/-- The loop of `main`: `read_record` allocates the version and the fragment of
each record, and `free_record` gives them back. -/
def serveAll (w : World) : List Input → Alloc (List Call × World)
  | [] => return ([], w)
  | i :: is => do
    let version ← malloc 2
    let fragment ← malloc i.record.length.toNat
    let (rc, w) ← mainStateMech S i.entropy w i.record.toTLSPlaintext
    free fragment
    free version
    if rc ≠ 0 then return ([i.call rc], w)
    else
      let (calls, w) ← serveAll w is
      return (i.call rc :: calls, w)

/-! ### The state of the server -/

/-- The pointers of a `TLS_SERVER_STATE`. -/
structure StatePointers where
  handshakeSecret : Allocation
  masterSecret : Allocation
  sharedSecret : Allocation
  serverHandshakeTrafficSecret : Allocation
  clientHandshakeTrafficSecret : Allocation
  serverApplicationTrafficSecret : Allocation
  clientApplicationTrafficSecret : Allocation
  serverWriteKey : Allocation
  clientWriteKey : Allocation
  serverWriteIv : Allocation
  clientWriteIv : Allocation
  certificateKey : Allocation

def initTLSServerState : Alloc StatePointers := do
  let handshakeSecret ← malloc 32
  let masterSecret ← malloc 32
  let sharedSecret ← malloc 32
  let serverHandshakeTrafficSecret ← malloc 32
  let clientHandshakeTrafficSecret ← malloc 32
  let serverApplicationTrafficSecret ← malloc 32
  let clientApplicationTrafficSecret ← malloc 32
  let serverWriteKey ← malloc 32
  let clientWriteKey ← malloc 32
  let serverWriteIv ← malloc 12
  let clientWriteIv ← malloc 12
  let certificateKey ← malloc 32
  return { handshakeSecret, masterSecret, sharedSecret, serverHandshakeTrafficSecret,
           clientHandshakeTrafficSecret, serverApplicationTrafficSecret,
           clientApplicationTrafficSecret, serverWriteKey, clientWriteKey, serverWriteIv,
           clientWriteIv, certificateKey }

def freeTLSServerState (p : StatePointers) : Alloc Unit := do
  free p.handshakeSecret
  free p.masterSecret
  free p.serverHandshakeTrafficSecret
  free p.clientHandshakeTrafficSecret
  free p.serverApplicationTrafficSecret
  free p.clientApplicationTrafficSecret
  free p.serverWriteKey
  free p.clientWriteKey
  free p.serverWriteIv
  free p.clientWriteIv
  free p.certificateKey

/-- The process from `init_TLS_SERVER_STATE` on. `main` ends with the loop; here the
state is given back behind it. -/
def serveAndFree (heap : Allocated) (is : List Input) : Alloc (List Call × World) := do
  let ptrs ← initTLSServerState
  let result ← serveAll S (World.init heap) is
  freeTLSServerState ptrs
  return result

/-! ### Opening -/

/-- A refused record leaves the function before the buffer is given back. -/
def decryptRecord (heap : (n : ℕ) → Block n) (out record : TLSPlaintext) (key : Block 32)
    (nonce : Block 12) : Alloc (ℤ × TLSPlaintext) := do
  let additionalData ← plain (processRecordHeaders record)
  let inner ← malloc (record.length.toNat + 100 - aeadTagLength)
  let fragment ← plain (readBytes record.fragment 0 record.length.toNat)
  match S.aeadDecrypt fragment additionalData nonce key with
  | none => return (-2, out)
  | some buf =>
    if (buf.length : ℤ) ≠ record.length.toNat - aeadTagLength then return (-3, out)
    else do
      let offset ← plain (paddingOffset buf.reverse)
      let contentType ← plain (readByte buf (buf.length - 1 - offset))
      let _version ← malloc 2
      let v0 ← plain (readByte record.legacyRecordVersion 0)
      let v1 ← plain (readByte record.legacyRecordVersion 1)
      let out := { out with type := contentType, legacyRecordVersion := [v0, v1] }
      let outLen := buf.length - 1 - offset
      let buf2 := heap outLen
      let _fragment ← malloc outLen
      let content ← plain (readBytes buf 0 outLen)
      let out ← plain (out.overwrite content)
      free inner
      return (0, { out with length := UInt16.ofNat outLen, fragment := buf2.val })

/-! ### Messages that authenticate the server -/

def processCertificateEntry (ce : CertificateEntry) : Alloc (Bytes × Allocation) := do
  let exLength := UInt16.ofNat (← plain (extensionsLength ce.extensions))
  let len := 3 + ce.certDataLength + 2 + exLength.toUInt32
  let size ← plain (bufferSize len .assertFailed)
  let buf ← malloc size
  let certData ← plain (readBytes ce.certData 0 ce.certDataLength.toNat)
  let exArr ←
    (if exLength ≠ 0 then do
      let (exArr, exBuf) ← processExtensions ce.extensions
      free exBuf
      return exArr
    else return [] : Alloc Bytes)
  let arr ← plain (fill size
    (processUint24 .little ce.certDataLength ++ certData ++ storeUint16 exLength ++ exArr))
  return (arr, buf)

/-- The loop over the certificates, which gives back each entry that it has copied. -/
def processEntries : List CertificateEntry → Alloc Bytes
  | [] => return []
  | ce :: rest => do
    let (certArr, buf) ← processCertificateEntry ce
    free buf
    let restArr ← processEntries rest
    return certArr ++ restArr

def processCertificate (c : Certificate) : Alloc (Bytes × Allocation) := do
  let certificateListLength := UInt32.ofNat (← plain (certificateChainLength c.certificateList))
  let len := 1 + c.certificateRequestContextLength.toUInt32 + 3 + certificateListLength
  let size ← plain (bufferSize len .assertFailed)
  let buf ← malloc size
  let context ← plain
    (if 0 < c.certificateRequestContextLength then
      readBytes c.certificateRequestContext 0 c.certificateRequestContextLength.toNat
    else .ok [] : Checked Bytes)
  let certs ← plain c.certificateList.entries
  let list ← processEntries certs
  let arr ← plain (fill size
    ([c.certificateRequestContextLength] ++ context ++
      processUint24 .little certificateListLength ++ list))
  return (arr, buf)

def processEncryptedExtensions (ee : EncryptedExtensions) : Alloc (Bytes × Allocation) := do
  let length ← plain (extensionsLength ee.extensions)
  let ee := { ee with extensionsLength := UInt16.ofNat length }
  let len := 2 + ee.extensionsLength.toNat
  let buf ← malloc len
  let (exArr, exBuf) ← processExtensions ee.extensions
  let arr ← plain (fill len (storeUint16 ee.extensionsLength ++ exArr))
  free exBuf
  return (arr, buf)

def processCertificateVerify (cv : CertificateVerify) : Alloc (Bytes × Allocation) := do
  let len := 2 + 2 + cv.signatureLength.toNat
  let buf ← malloc len
  let signature ← plain (readBytes cv.signature 0 cv.signatureLength.toNat)
  let arr ← plain
    (fill len
      (storeUint16 (htons cv.algorithm) ++ storeUint16 (htons cv.signatureLength) ++ signature))
  return (arr, buf)

def processSignatureContent (transcriptHash : Block 32) : Alloc (Block 32 × Allocation) := do
  let context := ascii ['T', 'L', 'S', ' ', '1', '.', '3', ',', ' ',
    's', 'e', 'r', 'v', 'e', 'r', ' ',
    'C', 'e', 'r', 't', 'i', 'f', 'i', 'c', 'a', 't', 'e', 'V', 'e', 'r', 'i', 'f', 'y']
  let len := 64 + context.length + 1 + 32
  let buf ← malloc len
  let hash ← plain (readBytes transcriptHash.val 0 32)
  let content ← plain (fill len (List.replicate 64 0x20 ++ context ++ [0] ++ hash))
  let hashBuf ← malloc 32
  free buf
  return (S.hashSha256 content, hashBuf)

/-- The pointer that the struct keeps is that of the signature. -/
def createCertificateVerify (sign : Signer) (keyFile : Bytes) (transcriptHash : Block 32) :
    Alloc (CertificateVerify × Allocation) := do
  let certPrivateKey ← plain (loadCertPrivateKey keyFile)
  let (toSign, hashBuf) ← processSignatureContent S transcriptHash
  match sign certPrivateKey toSign with
  | none => plain (throw .uninitialised)
  | some signature => do
    free hashBuf
    let r ← plain (readBlock signature.val 0 32)
    let s ← plain (readBlock signature.val 32 32)
    let rPad := signPad r
    let sPad := signPad s
    let rLen := 32 + UInt8.ofNat rPad
    let sLen := 32 + UInt8.ofNat sPad
    let fullDerPayloadLen := 1 + 1 + 1 + 1 + rLen + 1 + 1 + sLen
    let derPayloadLength := fullDerPayloadLen - 2
    let intTypeAsnDer : UInt8 := 0x02
    let der ← malloc fullDerPayloadLen.toNat
    let buf ← plain (fill fullDerPayloadLen.toNat
      ([0x30, derPayloadLength] ++
        ([intTypeAsnDer, rLen] ++ (List.replicate rPad 0x00 ++ r.val)) ++
        ([intTypeAsnDer, sLen] ++ (List.replicate sPad 0x00 ++ s.val))))
    return ({
      algorithm := ecdsaSecp256r1Sha256
      signatureLength := fullDerPayloadLen.toUInt16
      signature := buf }, der)

end TLS13.Memory
