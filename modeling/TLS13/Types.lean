import TLS13.Lib.Checked

/-! The records of `tls13_types.h` and the constants of `constants.h`. A pointer
field is the contents of the allocation it points to; the null pointer and a
pointer that was overwritten point to no byte at all. Lengths keep the integer
types of the structs, so every narrowing of the source is visible. -/

namespace TLS13

open Lib

/-! ### Constants -/

abbrev paddingMin : ℕ := 0
abbrev paddingMax : ℕ := 100

abbrev hashLength : ℕ := 32
abbrev aeadTagLength : ℕ := 16

abbrev legacyVersion : Block 2 := ⟨[0x03, 0x03], rfl⟩

abbrev tlsChacha20Poly1305Sha256 : Block 2 := ⟨[0x13, 0x03], rfl⟩
abbrev tlsChacha20Poly1305Sha256Num : UInt16 := 0x1303
abbrev keyShareExtensionType : UInt16 := 51
abbrev supportedVersionsExtensionType : UInt16 := 43
abbrev namedGroupX25519 : UInt16 := 0x001D

abbrev changeCipherSpecType : UInt8 := 20
abbrev alertType : UInt8 := 21
abbrev handshakeType : UInt8 := 22
abbrev appliactionType : UInt8 := 23

abbrev clientHelloType : UInt8 := 1
abbrev serverHelloType : UInt8 := 2
abbrev encryptedExtensions : UInt8 := 8

abbrev ecdsaSecp256r1Sha256 : UInt16 := 0x0403

abbrev fatalAlert : UInt8 := 2
abbrev closeNotifyAlert : UInt8 := 0
abbrev unexpectedMessageAlert : UInt8 := 10

/-! ### Records -/

/-- A record, protected or not. -/
structure TLSPlaintext where
  type : UInt8
  legacyRecordVersion : Bytes
  length : UInt16
  fragment : Bytes
  deriving DecidableEq, Repr

/-- A record as `read_record` fills it: two version bytes, and a fragment of
exactly the length the record states. -/
structure Record extends TLSPlaintext where
  version_size : legacyRecordVersion.length = 2
  fragment_size : fragment.length = length.toNat

structure Handshake where
  msgType : UInt8
  length : UInt32
  body : Bytes
  deriving DecidableEq, Repr

structure Extension where
  extensionType : UInt16
  extensionDataLength : UInt16
  extensionData : Bytes
  deriving DecidableEq, Repr

/-- The array as allocated, and the eight-bit length that is kept of it. -/
structure ExtensionArray where
  length : UInt8
  array : List Extension
  deriving DecidableEq, Repr

structure ClientHello where
  legacyVersion : Bytes
  random : Bytes
  legacySessionIdLength : UInt8
  legacySessionId : Bytes
  cipherSuitesLength : UInt16
  cipherSuites : Bytes
  legacyCompressionMethodsLength : UInt8
  legacyCompressionMethods : Bytes
  extensionsLength : UInt16
  extensions : ExtensionArray
  deriving DecidableEq, Repr

structure ServerHello where
  legacyVersion : Bytes
  random : Bytes
  legacySessionIdEchoLength : UInt8
  legacySessionIdEcho : Bytes
  cipherSuite : Bytes
  legacyCompressionMethod : UInt8
  extensionsLength : UInt16
  extensions : ExtensionArray
  deriving DecidableEq, Repr

structure EncryptedExtensions where
  extensionsLength : UInt16
  extensions : ExtensionArray
  deriving DecidableEq, Repr

structure CertificateEntry where
  certDataLength : UInt32
  certData : Bytes
  extensions : ExtensionArray
  deriving DecidableEq, Repr

structure CertificateChain where
  length : ℤ
  certs : List CertificateEntry
  deriving DecidableEq, Repr

structure Certificate where
  certificateRequestContextLength : UInt8
  certificateRequestContext : Bytes
  certificateListLength : UInt32
  certificateList : CertificateChain
  deriving DecidableEq, Repr

structure CertificateVerify where
  algorithm : UInt16
  signatureLength : UInt16
  signature : Bytes
  deriving DecidableEq, Repr

structure Alert where
  level : UInt8
  description : UInt8
  deriving DecidableEq, Repr

end TLS13
