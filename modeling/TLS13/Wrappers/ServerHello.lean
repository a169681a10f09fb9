import TLS13.Wrappers.ClientHello

/-! The ServerHello, `wrappers/ServerHello.c`, and the alert of `wrappers/Alert.c`.
The buffer is sized from the stored extension length and filled with the
extensions as they are, whose length is computed again. -/

namespace TLS13

open Lib

def createServerHello (random : Bytes) (legacySessionIdEchoLength : UInt8)
    (legacySessionIdEcho cipherSuite : Bytes) (extensionsLength : UInt16) (ea : ExtensionArray) :
    ServerHello where
  legacyVersion := [0x03, 0x03]
  random
  legacySessionIdEchoLength
  legacySessionIdEcho
  cipherSuite
  legacyCompressionMethod := 0
  extensionsLength
  extensions := ea

def processServerHello (sh : ServerHello) : Checked Bytes := do
  let length := 2 + 32 + 1 + sh.legacySessionIdEchoLength.toNat + 2 + 1 + 2 + sh.extensionsLength.toNat
  let legacyVersion ← readBytes sh.legacyVersion 0 2
  let random ← readBytes sh.random 0 32
  let legacySessionIdEcho ← readBytes sh.legacySessionIdEcho 0 sh.legacySessionIdEchoLength.toNat
  let cipherSuite ← readBytes sh.cipherSuite 0 2
  let extensionsLength ← extensionsLength sh.extensions
  let ex ← processExtensions sh.extensions
  fill length (legacyVersion ++ random ++ [sh.legacySessionIdEchoLength] ++ legacySessionIdEcho ++
    cipherSuite ++ [sh.legacyCompressionMethod] ++ writeUint16 (UInt16.ofNat extensionsLength) ++ ex)

/-- `process_full_alert_simple` -/
def processFullAlertSimple (a : Alert) : Bytes :=
  [alertType, 0x03, 0x03, 0, 2, a.level, a.description]

/-! ### The answer on the wire -/

/-- The struct that answers with the session id of the client, cut to its length. -/
theorem processServerHello_eq (random : Block 32) (sessionIdLength : UInt8) (sessionId : Bytes)
    (cipherSuite : Block 2) {es : List Rfc.Extension} (hid : sessionIdLength.toNat ≤ sessionId.length)
    (hlt : es.length < 256) (hsize : (Rfc.encodeExtensions es).length < 256 ^ 2) :
    processServerHello (createServerHello random.val sessionIdLength sessionId cipherSuite.val
        (UInt16.ofNat (Rfc.encodeExtensions es).length) (ExtensionArray.ofRfc es)) =
      .ok (Rfc.ServerHello.encode ⟨TLS13.legacyVersion, random,
        sessionId.take sessionIdLength.toNat, cipherSuite, 0, es⟩) := by
  have hread : readBytes sessionId 0 sessionIdLength.toNat =
      .ok (sessionId.take sessionIdLength.toNat) := by
    simp [readBytes, hid]
  have hlen := toNat_ofNat_uint16 hsize
  have hversion : readBytes [0x03, 0x03] 0 2 = .ok [0x03, 0x03] := rfl
  have hrandom : readBytes random.val 0 32 = .ok random.val :=
    readBytes_eq (List.append_nil _).symm random.length_val.symm
  have hsuite : readBytes cipherSuite.val 0 2 = .ok cipherSuite.val :=
    readBytes_eq (List.append_nil _).symm cipherSuite.length_val.symm
  simp only [processServerHello, createServerHello, hversion, hrandom, hread, hsuite,
    extensionsLength_ofRfc hlt hsize, processExtensions_ofRfc hlt hsize, hlen, Checked.bind_ok]
  rw [fill_eq (by simp [writeUint16_eq, hid]; omega)]
  simp [Rfc.ServerHello.encode, vec, be, writeUint16_eq, hlen, hid]

end TLS13
