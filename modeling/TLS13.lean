import TLS13.Lib.Bytes
import TLS13.Lib.Checked
import TLS13.Lib.Faults
import TLS13.Lib.Heap
import TLS13.Lib.Codec
import TLS13.Lib.Der
import TLS13.Lib.ByteStream
import TLS13.Lib.Run
import TLS13.Lib.Machine
import TLS13.Types
import TLS13.Util
import TLS13.Sodium
import TLS13.Rfc.Messages
import TLS13.Rfc.Authentication
import TLS13.Rfc.Records
import TLS13.Rfc.KeySchedule
import TLS13.Rfc.Client
import TLS13.Crypto.Sha256
import TLS13.Crypto.ChaCha20Poly1305
import TLS13.Crypto.X25519
import TLS13.Crypto.Reference
import TLS13.KeySchedule
import TLS13.Derivations
import TLS13.Wrappers.Handshake
import TLS13.Wrappers.Extensions
import TLS13.Blocks
import TLS13.KeyShares
import TLS13.Builders
import TLS13.Wrappers.EncryptedExtensions
import TLS13.Wrappers.ClientHello
import TLS13.Wrappers.ServerHello
import TLS13.Wrappers.Record
import TLS13.Wrappers.Certificate
import TLS13.Wrappers.CertificateVerify
import TLS13.Chains
import TLS13.StateMachine
import TLS13.Server
import TLS13.Loop
import TLS13.Hello
import TLS13.Bodies
import TLS13.Faults
import TLS13.HelloEnds
import TLS13.Main
import TLS13.Agreement
import TLS13.Protection
import TLS13.Nonces
import TLS13.Transcript
import TLS13.OneHandshake
import TLS13.Negotiation
import TLS13.Output
import TLS13.KeyMaterial
import TLS13.Alerts
import TLS13.Reply
import TLS13.RecordStream
import TLS13.Sealing
import TLS13.Opening
import TLS13.Signature
import TLS13.Decryption
import TLS13.Reencoding
import TLS13.Process
import TLS13.Session
import TLS13.KeyUse
import TLS13.Memory
import TLS13.Ledger
import TLS13.Buffers
import TLS13.Refinement
import TLS13.Wire
