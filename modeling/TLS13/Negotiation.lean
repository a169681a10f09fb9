import TLS13.Hello

/-! What the ServerHello selects. The suite, the version and the compression
method of the answer are constants, and no list of the client is looked at for
them; the key share is the one thing that has to be on offer. -/

namespace TLS13

open Lib

variable (S : Sodium)

/-- The two bytes `pair` stand at an even offset of `list`. -/
def ListsPair (list pair : Bytes) : Prop := ∃ i, (list.drop (2 * i)).take 2 = pair

/-- The client offers all that the ServerHello selects. -/
structure SelectionOffered (ch : ClientHello) : Prop where
  cipherSuite : ListsPair ch.cipherSuites tlsChacha20Poly1305Sha256.val
  supportedVersion : ∃ ex, ch.extensions.array.find?
    (·.extensionType = supportedVersionsExtensionType) = some ex ∧
      ListsPair (ex.extensionData.drop 1) [0x03, 0x04]
  compressionMethods : ch.legacyCompressionMethods = [0]
  keyShare : ∃ ex key, ch.extensions.array.find? (·.extensionType = keyShareExtensionType) =
    some ex ∧ LeadsToX25519 ex.extensionData key

/-- The ServerHello selects TLS 1.3 with ChaCha20-Poly1305 and SHA-256, no
compression and the key share `key`. -/
structure Selects (sh : Rfc.ServerHello) (key : Block 32) : Prop where
  legacyVersion : sh.legacyVersion = TLS13.legacyVersion
  cipherSuite : sh.cipherSuite = tlsChacha20Poly1305Sha256
  compressionMethod : sh.compressionMethod = 0
  supportedVersion : sh.extensions.find? (·.type = supportedVersionsExtensionType) =
    some ⟨supportedVersionsExtensionType, [0x03, 0x04]⟩
  keyShare : sh.x25519Key = some key

theorem selects_serverHello (random : Block 32) (sessionId : Bytes) (publicKey : Block 32) :
    Selects (serverHello random sessionId publicKey) publicKey where
  legacyVersion := rfl
  cipherSuite := rfl
  compressionMethod := rfl
  supportedVersion := rfl
  keyShare := x25519Key_serverHello random sessionId publicKey

theorem answers_answer (w : World) (sharedSecret : Block 32) (sh : Bytes) :
    answers w (w.answer sharedSecret sh) = [Rfc.plaintextRecord handshakeType sh] := by
  have htrace : (w.answer sharedSecret sh).trace =
      w.trace ++ [.wrote (Rfc.plaintextRecord handshakeType sh)] := rfl
  rw [answers, htrace, List.drop_left]
  rfl

theorem answers_storeSharedSecret (w : World) (sharedSecret : Block 32) :
    answers w (w.storeSharedSecret sharedSecret) = [] := by
  have htrace : (w.storeSharedSecret sharedSecret).trace = w.trace := rfl
  rw [answers, htrace, List.drop_length]
  rfl

/-- A handshake that returns 0 wrote one ServerHello, with the fixed selection
and a share of the server, to a client whose first key share extension leads to an
X25519 key; with another code it wrote nothing. -/
theorem handshake_selects {ent : Entropy} {w w' : World} {ch : ClientHello} {rc : ℤ}
    (h : clientHelloServerHelloHandshake S ent w ch = .ok (rc, w')) :
    (rc ≠ 0 → answers w w' = []) ∧
      (rc = 0 →
        (∃ (sh : Rfc.ServerHello) (publicKey : Block 32),
          answers w w' = [Rfc.plaintextRecord handshakeType
            (Rfc.handshakeMessage serverHelloType sh.encode)] ∧
          sh.sessionIdEcho = ch.sessionId ∧ Selects sh publicKey) ∧
        ∃ ex key,
          ch.extensions.array.find? (·.extensionType = keyShareExtensionType) = some ex ∧
          LeadsToX25519 ex.extensionData key ∧
          ∀ l : Rfc.ClientShares, ex.extensionData = l.encode →
            ∃ s ∈ l.entries, s.group = namedGroupX25519 ∧ s.key = key.val) := by
  rcases clientHelloServerHelloHandshake_eq_ok S h with
    ⟨hrc, sharedSecret, rfl⟩ |
    ⟨hrc, publicKey, clientPublicKey, sharedSecret, -, -, hshare, -, -, rfl⟩
  · refine ⟨fun _ => answers_storeSharedSecret w sharedSecret, fun hzero => absurd hzero hrc⟩
  · refine ⟨fun hne => absurd hrc hne, fun _ => ⟨?_, ?_⟩⟩
    · exact ⟨serverHello ent.random ch.sessionId publicKey, publicKey, answers_answer _ _ _, rfl,
        selects_serverHello _ _ _⟩
    · obtain ⟨ex, hex, hleads, hlist⟩ := getX25519KeyShare_eq_ok hshare
      exact ⟨ex, clientPublicKey, hex, hleads, hlist⟩

/-- A minimal ClientHello is answered whatever suite it offers. -/
theorem handshake_minimalHello (suite : Block 2) :
    ∃ w w', clientHelloServerHelloHandshake Sodium.reference sampleEntropy w
      (ClientHello.ofRfc (minimalHello suite samplePoint.val samplePoint.length_val.le)) =
        .ok (0, w') ∧ answers w w' ≠ [] := by
  obtain ⟨sharedSecret, hagree⟩ := scalarmult_sample
  refine ⟨_, _, handshake_of_exchange _
    ((hello_minimalRecord suite samplePoint.length_val.le).exchange (w := World.init sampleHeap)
      (by simp [minimalHello]) (offers_minimalHello suite samplePoint) rfl rfl hagree), ?_⟩
  rw [answers_answer]
  exact List.cons_ne_nil _ _

/-- The handshake with the sample client returns 0 and wrote a ServerHello. -/
theorem handshake_selects_sample :
    ∃ (w w' : World) (sh : Rfc.ServerHello) (publicKey : Block 32),
      clientHelloServerHelloHandshake Sodium.reference sampleEntropy w (ClientHello.ofRfc sampleHello) =
          .ok (0, w') ∧
        answers w w' =
          [Rfc.plaintextRecord handshakeType (Rfc.handshakeMessage serverHelloType sh.encode)] ∧
        Selects sh publicKey := by
  obtain ⟨w, w', h, -⟩ := handshake_minimalHello tlsChacha20Poly1305Sha256
  obtain ⟨⟨sh, publicKey, hanswers, -, hselects⟩, -⟩ := (handshake_selects _ h).2 rfl
  exact ⟨w, w', sh, publicKey, h, hanswers, hselects⟩

/-- A client that offers AES-128-GCM alone is answered with ChaCha20-Poly1305. -/
theorem not_selectionOffered_aes128 :
    ¬ ∀ (w w' : World) (ch : ClientHello) (rc : ℤ),
      clientHelloServerHelloHandshake Sodium.reference sampleEntropy w ch = .ok (rc, w') →
        answers w w' ≠ [] → SelectionOffered ch := by
  intro h
  obtain ⟨w, w', hshake, hwrote⟩ := handshake_minimalHello ⟨[0x13, 0x01], rfl⟩
  obtain ⟨i, hi⟩ := (h w w' _ 0 hshake hwrote).cipherSuite
  -- two bytes hold one pair, and it is another one
  cases i with
  | zero =>
    revert hi
    decide
  | succ i =>
    have hnil : ([0x13, 0x01] : Bytes).drop (2 * (i + 1)) = [] := List.drop_of_length_le (by simp)
    have hpair : ([] : Bytes) = tlsChacha20Poly1305Sha256.val := by
      rw [← hi]
      exact (congrArg (List.take 2) hnil).symm
    cases hpair

end TLS13
