import TLS13.Crypto.Reference
import TLS13.Server

/-! Records that hold a ClientHello of the grammar. Parsing yields the message's
own fields, and the call returns exactly when the key exchange finds a key of 32
bytes in the message, or stops before it looks for one. -/

namespace TLS13

open Lib

variable (S : Sodium)

/-- The fragment starts with the ClientHello `ch`. -/
structure Hello (ch : Rfc.ClientHello) (r : Record) where
  rest : Bytes
  isHandshake : r.type = handshakeType
  fragment_eq : r.fragment = Rfc.handshakeMessage clientHelloType ch.encode ++ rest

variable {S} {ch : Rfc.ClientHello} {r : Record}

theorem Hello.parseHandshake (h : Hello ch r) :
    parseHandshake r.fragment r.length.toNat =
      .ok ⟨clientHelloType, UInt32.ofNat ch.encode.length, ch.encode⟩ := by
  rw [h.fragment_eq]
  exact parseHandshake_message clientHelloType h.rest _ ch.length_encode_lt

/-- A message that offers a key, in a state of the server's own suite, is
answered when the key exchange succeeds. -/
def Hello.exchange (h : Hello ch r) {ent : Entropy} {w : World} {publicKey key sharedSecret : Block 32}
    (hcount : ch.extensions.length < 256) (hoffer : ch.OffersX25519 key)
    (hsuite : w.state.cipherSuite = tlsChacha20Poly1305Sha256Num)
    (hbase : S.scalarmultBase ent.serverPrivateKey = some publicKey)
    (hagree : S.scalarmult ent.serverPrivateKey key = some sharedSecret) :
    Exchange S ent w r.toTLSPlaintext where
  handshake := ⟨clientHelloType, UInt32.ofNat ch.encode.length, ch.encode⟩
  clientHello := ClientHello.ofRfc ch
  serverPublicKey := publicKey
  clientPublicKey := key
  sharedSecret := sharedSecret
  parsed := h.parseHandshake
  isClientHello := rfl
  parsedHello := parseClientHello_encode _ hoffer.extensions_ne_nil
  suite := hsuite
  base := hbase
  share := getX25519KeyShare_of_offers hcount hoffer
  agreed := hagree
  idSize := (toNat_ofNat_uint8 ch.sessionId_lt).le

/-- In a reachable state the suite is the server's own. -/
theorem Reachable.cipherSuite_received {w : World} (hw : Reachable S w) (r : TLSPlaintext) :
    ((w.log (.received r)).absorb r.fragment).state.cipherSuite = tlsChacha20Poly1305Sha256Num :=
  hw.cipherSuite S

/-- The call is the exchange of the two hello messages, and ends with -3 when that
does not succeed. -/
theorem Hello.mainStateMech_eq_bind (h : Hello ch r) (hne : ch.extensions ≠ []) (ent : Entropy)
    (w : World) :
    ∃ next : ℤ × World → Checked (ℤ × World),
      (∀ rc w', rc ≠ 0 → next (rc, w') = .ok (-3, w')) ∧
        mainStateMech S ent w r.toTLSPlaintext =
          clientHelloServerHelloHandshake S ent
            ((w.log (.received r.toTLSPlaintext)).absorb r.fragment) (ClientHello.ofRfc ch) >>=
              next := by
  obtain ⟨next, hnext, hcall⟩ := mainStateMech_body S h.isHandshake h.parseHandshake rfl ent w
  refine ⟨next, hnext, ?_⟩
  rw [hcall, handleClientHello, parseClientHello_encode _ hne, Checked.bind_ok]

/-- A handshake that fails with a code ends the call with -3. -/
theorem Hello.mainStateMech_of_code (h : Hello ch r) (hne : ch.extensions ≠ []) {ent : Entropy}
    {w w' : World} {rc : ℤ} (hrc : rc ≠ 0)
    (hshake : clientHelloServerHelloHandshake S ent
      ((w.log (.received r.toTLSPlaintext)).absorb r.fragment) (ClientHello.ofRfc ch) =
        .ok (rc, w')) :
    mainStateMech S ent w r.toTLSPlaintext = .ok (-3, w') := by
  obtain ⟨next, hnext, hcall⟩ := h.mainStateMech_eq_bind hne ent w
  rw [hcall, hshake, Checked.bind_ok]
  exact hnext rc w' hrc

/-- A fault in the search for a key share is a fault of the call. -/
theorem Hello.mainStateMech_of_fault (h : Hello ch r) (hne : ch.extensions ≠ []) {ent : Entropy}
    {w : World} (hw : Reachable S w) {publicKey : Block 32} {e : Fault}
    (hbase : S.scalarmultBase ent.serverPrivateKey = some publicKey)
    (hshare : getX25519KeyShare (ExtensionArray.ofRfc ch.extensions) = .error e) :
    mainStateMech S ent w r.toTLSPlaintext = .error e := by
  have hshare' : getX25519KeyShare (ClientHello.ofRfc ch).extensions = .error e := hshare
  obtain ⟨next, -, hcall⟩ := h.mainStateMech_eq_bind hne ent w
  rw [hcall, clientHelloServerHelloHandshake, if_pos (hw.cipherSuite_received _)]
  simp only [hbase, hshare', Checked.bind_error]

/-! ### The smallest ClientHello -/

/-- A `client_shares` list of one X25519 entry. -/
def singleShare (key : Bytes) (h : key.length ≤ 32) : Rfc.ClientShares where
  entries := [⟨namedGroupX25519, key⟩]
  size_lt := by
    simp only [List.flatMap_cons, List.flatMap_nil, List.append_nil,
      Rfc.KeyShareEntry.length_encode]
    omega

theorem length_suite_lt (suite : Block 2) : suite.val.length < 256 ^ 2 := by
  rw [suite.length_val]
  norm_num

theorem length_singleShare_extension_lt {key : Bytes} (h : key.length ≤ 32) :
    (Rfc.encodeExtensions [⟨keyShareExtensionType, (singleShare key h).encode⟩]).length <
      256 ^ 2 := by
  simp [Rfc.encodeExtensions, Rfc.ClientShares.encode, singleShare]
  omega

/-- One suite, no compression, and no extension but a key share list of one
X25519 entry. -/
def minimalHello (suite : Block 2) (key : Bytes) (h : key.length ≤ 32) : Rfc.ClientHello where
  legacyVersion
  random := Block.zero 32
  sessionId := []
  cipherSuites := suite.val
  compressionMethods := [0]
  extensions := [⟨keyShareExtensionType, (singleShare key h).encode⟩]
  sessionId_lt := by decide
  cipherSuites_lt := length_suite_lt suite
  compressionMethods_lt := by decide
  extensions_lt := length_singleShare_extension_lt h

section Minimal

variable (suite : Block 2) {key : Bytes} (hkey : key.length ≤ 32)

theorem sharesWellFormed_minimalHello : (minimalHello suite key hkey).SharesWellFormed := by
  intro e he _
  obtain rfl : e = ⟨keyShareExtensionType, (singleShare key hkey).encode⟩ := by
    simpa [minimalHello] using he
  exact ⟨singleShare key hkey, rfl⟩

theorem offers_minimalHello (k : Block 32) :
    (minimalHello suite k.val k.length_val.le).OffersX25519 k :=
  ⟨⟨keyShareExtensionType, (singleShare k.val k.length_val.le).encode⟩,
    singleShare k.val k.length_val.le, ⟨namedGroupX25519, k.val⟩, rfl, rfl, rfl, rfl⟩

theorem length_minimalHello : (minimalHello suite key hkey).encode.length = 53 + key.length := by
  simp [Rfc.ClientHello.encode, minimalHello, Rfc.encodeExtensions, Rfc.ClientShares.encode,
    singleShare]
  omega

/-- The record that holds it and nothing else. -/
def minimalRecord : Record :=
  Record.ofFragment handshakeType
    (Rfc.handshakeMessage clientHelloType (minimalHello suite key hkey).encode) (by
      rw [Rfc.length_handshakeMessage, length_minimalHello]
      omega)

def hello_minimalRecord : Hello (minimalHello suite key hkey) (minimalRecord suite hkey) where
  rest := []
  isHandshake := rfl
  fragment_eq := (List.append_nil _).symm

end Minimal

/-- A heap, a client and what the server draws, for runs of the reference functions. -/
def sampleHeap : Allocated := ⟨fun _ => Block.zero 32, fun _ => Block.zero 12⟩

def sampleEntropy : Entropy := ⟨⟨List.replicate 32 2, rfl⟩, Block.zero 32, 7⟩

def sampleScalar : Block 32 := ⟨List.replicate 32 1, rfl⟩

def samplePoint : Block 32 := Crypto.x25519 sampleScalar Crypto.basePoint

def sampleHello : Rfc.ClientHello :=
  minimalHello tlsChacha20Poly1305Sha256 samplePoint.val samplePoint.length_val.le

def sampleRecord : Record :=
  minimalRecord tlsChacha20Poly1305Sha256 samplePoint.length_val.le

def hello_sampleRecord : Hello sampleHello sampleRecord := hello_minimalRecord _ _

theorem scalarmult_sample :
    ∃ sharedSecret, Sodium.reference.scalarmult sampleEntropy.serverPrivateKey samplePoint =
      some sharedSecret := by
  have hne : Crypto.x25519 sampleEntropy.serverPrivateKey samplePoint ≠ Block.zero 32 := by
    decide +kernel
  exact ⟨_, Sodium.scalarmult_reference hne⟩

/-- The sample is answered from every reachable state, whatever follows it in its record. -/
theorem mainStateMech_sample {w : World} (hw : Reachable Sodium.reference w) {r : Record}
    (h : Hello sampleHello r) :
    ∃ x : Exchange Sodium.reference sampleEntropy w r.toTLSPlaintext,
      mainStateMech Sodium.reference sampleEntropy w r.toTLSPlaintext = .ok (0, x.world) := by
  obtain ⟨sharedSecret, hagree⟩ := scalarmult_sample
  have x := h.exchange (by decide) (offers_minimalHello _ samplePoint) (hw.cipherSuite _) rfl hagree
  exact ⟨x, mainStateMech_of_exchange _ h.isHandshake x⟩

theorem length_sampleCcs : ([1] : Bytes).length < 256 ^ 2 := by decide

/-- A change_cipher_spec record of one byte. -/
def sampleCcs : Record := Record.ofFragment changeCipherSpecType [1] length_sampleCcs

theorem mainStateMech_sampleCcs (w : World) :
    mainStateMech S sampleEntropy w sampleCcs.toTLSPlaintext =
      .ok (0, w.log (.received sampleCcs.toTLSPlaintext)) := rfl

/-- The run of one call, which is given the sample. -/
theorem run_sample :
    ∃ x : Exchange Sodium.reference sampleEntropy (World.init sampleHeap)
        sampleRecord.toTLSPlaintext,
      Run (Call.Step Sodium.reference) (World.init sampleHeap) [⟨sampleEntropy, sampleRecord, 0⟩]
        x.world := by
  obtain ⟨x, hcall⟩ := mainStateMech_sample ⟨sampleHeap, [], .nil⟩ hello_sampleRecord
  exact ⟨x, Run.single hcall⟩

/-! ### When a ClientHello makes the call return -/

/-- A call that returns found an extension. -/
theorem Hello.extensions_ne_nil_of_returns (h : Hello ch r) {ent : Entropy} {w : World}
    (hret : Checked.Returns (mainStateMech S ent w r.toTLSPlaintext)) : ch.extensions ≠ [] := by
  intro hnil
  obtain ⟨v, hcall⟩ := hret
  rw [mainStateMech_handshake S h.isHandshake] at hcall
  simp only [handleHandshake, h.parseHandshake, parseClientHello_nil _ hnil, Checked.bind_ok,
    Checked.bind_error, ne_eq, not_true_eq_false, if_false] at hcall
  cases hcall

/-- A call that returns found an offered key, or never looked for one. -/
theorem Hello.offers_of_returns (h : Hello ch r) {ent : Entropy} {w : World} (hw : Reachable S w)
    (hcount : ch.extensions.length ≤ 255) (hwf : ch.SharesWellFormed)
    (hret : Checked.Returns (mainStateMech S ent w r.toTLSPlaintext)) :
    (∃ k, ch.OffersX25519 k) ∨ S.scalarmultBase ent.serverPrivateKey = none := by
  have hne := h.extensions_ne_nil_of_returns hret
  obtain ⟨v, hv⟩ := hret
  obtain ⟨next, -, hcall⟩ := h.mainStateMech_eq_bind hne ent w
  rw [hcall] at hv
  obtain ⟨result, hshake, -⟩ := Checked.bind_eq_ok.mp hv
  simp only [clientHelloServerHelloHandshake, if_pos (hw.cipherSuite_received _)] at hshake
  cases hbase : S.scalarmultBase ent.serverPrivateKey with
  | none => exact .inr rfl
  | some publicKey =>
    simp only [hbase, Checked.bind_eq_ok] at hshake
    obtain ⟨k, hshare, -⟩ := hshake
    exact .inl ⟨k, offers_of_getX25519KeyShare hne (by omega) hwf hshare⟩

/-- With an offered key the call returns, whether or not the key exchange succeeds. -/
theorem Hello.returns_of_offers (h : Hello ch r) {ent : Entropy} {w : World} (hw : Reachable S w)
    (hcount : ch.extensions.length ≤ 255) {k : Block 32} (hoffer : ch.OffersX25519 k)
    {publicKey : Block 32} (hbase : S.scalarmultBase ent.serverPrivateKey = some publicKey) :
    Checked.Returns (mainStateMech S ent w r.toTLSPlaintext) := by
  have hshare : getX25519KeyShare (ClientHello.ofRfc ch).extensions = .ok k :=
    getX25519KeyShare_of_offers (by omega) hoffer
  cases hagree : S.scalarmult ent.serverPrivateKey k with
  | none =>
    have hshake : ∃ w', clientHelloServerHelloHandshake S ent
        ((w.log (.received r.toTLSPlaintext)).absorb r.fragment) (ClientHello.ofRfc ch) =
          .ok (-4, w') := by
      simp only [clientHelloServerHelloHandshake, if_pos (hw.cipherSuite_received _), hbase, hshare,
        hagree, Checked.bind_ok]
      exact ⟨_, rfl⟩
    obtain ⟨w', hshake⟩ := hshake
    exact ⟨_, h.mainStateMech_of_code hoffer.extensions_ne_nil (by decide) hshake⟩
  | some sharedSecret =>
    exact ⟨_, mainStateMech_of_exchange S h.isHandshake
      (h.exchange (by omega) hoffer (hw.cipherSuite S) hbase hagree)⟩

/-- Without a key pair the key shares are not looked at. -/
theorem Hello.returns_of_no_keyPair (h : Hello ch r) {ent : Entropy} {w : World}
    (hw : Reachable S w) (hne : ch.extensions ≠ [])
    (hbase : S.scalarmultBase ent.serverPrivateKey = none) :
    Checked.Returns (mainStateMech S ent w r.toTLSPlaintext) := by
  have hshake : clientHelloServerHelloHandshake S ent
      ((w.log (.received r.toTLSPlaintext)).absorb r.fragment) (ClientHello.ofRfc ch) =
        .ok (-3, (w.log (.received r.toTLSPlaintext)).absorb r.fragment) := by
    simp only [clientHelloServerHelloHandshake, if_pos (hw.cipherSuite_received _), hbase]
    rfl
  exact ⟨_, h.mainStateMech_of_code hne (by decide) hshake⟩

/-- A well-formed ClientHello makes the call return exactly when it has an
extension, and the first X25519 entry of its first key share list has a key of 32
bytes or the server fails to make a key pair. -/
theorem mainStateMech_returns_iff (h : Hello ch r) {ent : Entropy} {w : World} (hw : Reachable S w)
    (hcount : ch.extensions.length ≤ 255) (hwf : ch.SharesWellFormed) :
    Checked.Returns (mainStateMech S ent w r.toTLSPlaintext) ↔
      ch.extensions ≠ [] ∧
        ((∃ k, ch.OffersX25519 k) ∨ S.scalarmultBase ent.serverPrivateKey = none) := by
  constructor
  · intro hret
    exact ⟨h.extensions_ne_nil_of_returns hret, h.offers_of_returns hw hcount hwf hret⟩
  · rintro ⟨hne, hcond⟩
    cases hbase : S.scalarmultBase ent.serverPrivateKey with
    | none => exact h.returns_of_no_keyPair hw hne hbase
    | some publicKey =>
      obtain ⟨k, hoffer⟩ : ∃ k, ch.OffersX25519 k := by simpa [hbase] using hcond
      exact h.returns_of_offers hw hcount hoffer hbase

/-- The hypotheses hold of a message with a key, whose call returns. -/
theorem mainStateMech_returns_sample :
    Checked.Returns (mainStateMech Sodium.reference sampleEntropy (World.init sampleHeap)
      sampleRecord.toTLSPlaintext) :=
  (mainStateMech_returns_iff hello_sampleRecord ⟨sampleHeap, [], .nil⟩ (by decide)
    (sharesWellFormed_minimalHello _ _)).mpr
      ⟨by decide, .inl ⟨samplePoint, offers_minimalHello _ samplePoint⟩⟩

/-- A key share of one byte: the assertion on the key length ends the process. -/
theorem not_returns_shortKey :
    (minimalHello tlsChacha20Poly1305Sha256 [0] (by decide)).SharesWellFormed ∧
      mainStateMech Sodium.reference sampleEntropy (World.init sampleHeap)
        (minimalRecord tlsChacha20Poly1305Sha256
          (show [0].length ≤ 32 by decide)).toTLSPlaintext = .error .assertFailed :=
  ⟨sharesWellFormed_minimalHello _ _, (hello_minimalRecord _ _).mainStateMech_of_fault
    (List.cons_ne_nil _ _) ⟨sampleHeap, [], .nil⟩ rfl rfl⟩

end TLS13
