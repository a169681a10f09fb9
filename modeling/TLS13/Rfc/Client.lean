import TLS13.Rfc.KeySchedule
import TLS13.Rfc.Messages
import TLS13.Rfc.Records

/-! A client of RFC 8446 up to the first protected record. It knows its private
scalar and the ClientHello it sent, sees the two records that the server wrote,
and derives its secrets from nothing else. -/

namespace TLS13.Rfc

open Lib

/-- What a client knows after the first protected record. -/
structure Session where
  serverSecret : Block 32
  clientSecret : Block 32
  serverKey : Block 32
  serverIv : Block 12
  clientKey : Block 32
  clientIv : Block 12
  content : Bytes
  contentType : UInt8
  deriving DecidableEq

variable (S : Sodium)

/-- `clientHello` is the handshake message. The first record has to hold one
ServerHello that selects TLS 1.3 and ChaCha20-Poly1305. -/
def clientHandshake (privateKey : Block 32) (clientHello rec1 rec2 : Bytes) : Option Session := do
  let serverHelloMessage := rec1.drop 5
  if rec1.take 5 ≠ recordHeader 22 serverHelloMessage.length then none
  else
    let (msgType, body) ← decodeAll takeHandshake serverHelloMessage
    let sh ← decodeAll ServerHello.decode body
    if msgType ≠ 2 ∨ sh.cipherSuite.val ≠ [0x13, 0x03] ∨ ⟨43, [0x03, 0x04]⟩ ∉ sh.extensions then
      none
    else
      let serverPublicKey ← sh.x25519Key
      let sharedSecret ← S.scalarmult privateKey serverPublicKey
      let transcriptHash := S.hashSha256 (clientHello ++ serverHelloMessage)
      let server := serverHandshakeTrafficSecret S sharedSecret transcriptHash
      let client := clientHandshakeTrafficSecret S sharedSecret transcriptHash
      let (content, contentType) ← openRecord S rec2 (writeKey S server)
        (recordNonce (writeIv S server) 0)
      return { serverSecret := server
               clientSecret := client
               serverKey := writeKey S server
               serverIv := writeIv S server
               clientKey := writeKey S client
               clientIv := writeIv S client
               content
               contentType }

/-! ### The client on what it receives -/

/-- The bytes of the first record of a stream, and what follows them. -/
def splitRecord (stream : Bytes) : Option (Bytes × Bytes) := do
  let (_, rest) ← takeRecord.run stream
  return (stream.take (stream.length - rest.length), rest)

theorem splitRecord_append (type : UInt8) {fragment : Bytes} (h : fragment.length ≤ 2 ^ 14)
    (rest : Bytes) :
    splitRecord (plaintextRecord type fragment ++ rest) =
      some (plaintextRecord type fragment, rest) := by
  have hlen : (plaintextRecord type fragment ++ rest).length - rest.length =
      (plaintextRecord type fragment).length := by
    rw [List.length_append, Nat.add_sub_cancel]
  simp only [splitRecord, decodes_takeRecord type h rest, Option.bind_eq_bind, Option.bind_some,
    hlen, List.take_left]
  rfl

/-- The session that the first two records give, and the rest of the stream. -/
def clientStream (privateKey : Block 32) (clientHello stream : Bytes) :
    Option (Session × Bytes) := do
  let (rec1, stream) ← splitRecord stream
  let (rec2, stream) ← splitRecord stream
  let session ← clientHandshake S privateKey clientHello rec1 rec2
  return (session, stream)

end TLS13.Rfc
