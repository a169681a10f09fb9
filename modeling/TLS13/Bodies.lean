import TLS13.Hello

/-! Bodies of ClientHello messages through `parse_client_hello`. No length of the
body is compared with the end, so the parser stays inside exactly the bodies that
hold complete fields; bytes behind them are passed over, and the call has no code
for a body that is not one message. -/

namespace TLS13

open Lib

/-! ### What is answered -/

theorem answered_append {S : Sodium} {ent : Entropy} {w : World} {ch : Rfc.ClientHello}
    {left : Bytes} {r : Record} {publicKey key sharedSecret : Block 32}
    (htype : r.type = handshakeType)
    (hfragment : r.fragment = Rfc.handshakeMessage clientHelloType (ch.encode ++ left))
    (hcount : ch.extensions.length ≤ 255) (hoffer : ch.OffersX25519 key)
    (hsuite : w.state.cipherSuite = tlsChacha20Poly1305Sha256Num)
    (hbase : S.scalarmultBase ent.serverPrivateKey = some publicKey)
    (hagree : S.scalarmult ent.serverPrivateKey key = some sharedSecret) :
    ∃ x : Exchange S ent w r.toTLSPlaintext,
      mainStateMech S ent w r.toTLSPlaintext = .ok (0, x.world) := by
  have hsize : (ch.encode ++ left).length < 256 ^ 3 := by
    have hlength := r.length.toNat_lt
    rw [← r.fragment_size, hfragment, Rfc.length_handshakeMessage] at hlength
    omega
  have hparse := parseHandshake_message clientHelloType [] r.length.toNat hsize
  rw [List.append_nil, ← hfragment] at hparse
  let x : Exchange S ent w r.toTLSPlaintext :=
    { handshake := _
      clientHello := ClientHello.ofRfc ch
      serverPublicKey := publicKey
      clientPublicKey := key
      sharedSecret := sharedSecret
      parsed := hparse
      isClientHello := rfl
      parsedHello := parseClientHello_append left _ hoffer.extensions_ne_nil
      suite := hsuite
      base := hbase
      share := getX25519KeyShare_of_offers (by omega) hoffer
      agreed := hagree
      idSize := (toNat_ofNat_uint8 ch.sessionId_lt).le }
  exact ⟨x, mainStateMech_of_exchange S htype x⟩

/-! ### What is refused -/

/-- The functions of `S`, with a key exchange that never fails. -/
def Sodium.agreeing (S : Sodium) : Sodium :=
  { S with
    scalarmultBase := fun _ => some (Block.zero 32)
    scalarmult := fun _ _ => some (Block.zero 32) }

/-- The body is reported as an error and answered with nothing, by a server of its
own suite and whatever it draws and the key exchange gives. -/
def Refused (body : Bytes) : Prop :=
  ∀ (S : Sodium) (ent : Entropy) (w : World),
    w.state.cipherSuite = tlsChacha20Poly1305Sha256Num →
      ∃ rc w', handleClientHello S ent w body = .ok (rc, w') ∧ rc ≠ 0 ∧ answers w w' = []

theorem handleClientHello_agreeing {S : Sodium} {ent : Entropy} {w w' : World} {body : Bytes} {rc : ℤ}
    (hsuite : w.state.cipherSuite = tlsChacha20Poly1305Sha256Num)
    (h : handleClientHello S.agreeing ent w body = .ok (rc, w')) : rc = 0 := by
  obtain ⟨ch, -, h⟩ := Checked.bind_eq_ok.mp h
  simp only [clientHelloServerHelloHandshake, if_pos hsuite, Sodium.agreeing,
    Checked.bind_eq_ok] at h
  obtain ⟨key, -, h⟩ := h
  have hid := sendServerHello_eq_ok h
  rw [sendServerHello_eq _ hid] at h
  cases h
  rfl

/-- The server refuses no body for what it is. -/
theorem not_refused (body : Bytes) : ¬ Refused body := by
  intro h
  obtain ⟨rc, w', hcall, hrc, -⟩ :=
    h Sodium.reference.agreeing sampleEntropy (World.init sampleHeap) rfl
  exact hrc (handleClientHello_agreeing rfl hcall)

/-! ### The bounds of the body -/

/-- The parser reads inside the body up to the extension block, which lies in the
body too, and a body that is not the fields of one message is refused. -/
structure StaysInBody (body : Bytes) : Prop where
  inside : ∃ ch iter, parseHelloFields body = .ok (ch, iter) ∧
    iter + ch.extensionsLength.toNat ≤ body.length
  /-- Some length runs past the end: the body does not start with complete fields. -/
  pastEnd : (¬ ∃ (f : Rfc.HelloFields) (rest : Bytes), body = f.encode ++ rest) → Refused body
  left : ∀ (f : Rfc.HelloFields) (rest : Bytes), body = f.encode ++ rest → rest ≠ [] → Refused body

theorem inside_encode (f : Rfc.HelloFields) :
    ∃ ch iter, parseHelloFields f.encode = .ok (ch, iter) ∧
      iter + ch.extensionsLength.toNat = f.encode.length := by
  have hparse := (parseHelloFields_encode f []).1
  rw [List.append_nil] at hparse
  refine ⟨_, _, hparse, ?_⟩
  rw [f.length_encode]
  exact congrArg (f.offset + ·) (toNat_ofNat_uint16 f.block_lt)

theorem eq_nil_of_encode {f f' : Rfc.HelloFields} {rest : Bytes} (h : f.encode = f'.encode ++ rest) :
    rest = [] := by
  obtain ⟨ch, iter, hparse, hend⟩ := inside_encode f
  have hparse' := (parseHelloFields_encode f' rest).1
  rw [← h, hparse] at hparse'
  cases hparse'
  have hlen : (ClientHello.ofFields f').extensionsLength.toNat = f'.block.length :=
    toNat_ofNat_uint16 f'.block_lt
  have hsum := congrArg List.length h
  rw [List.length_append, f'.length_encode, ← hend, hlen] at hsum
  exact List.eq_nil_of_length_eq_zero (by omega)

/-- The bounds are kept exactly on the bodies that are the fields of one message, with
an extension block of any bytes. -/
theorem staysInBody_iff (body : Bytes) :
    StaysInBody body ↔ ∃ f : Rfc.HelloFields, body = f.encode := by
  constructor
  · intro h
    obtain ⟨ch, iter, hparse, hle⟩ := h.inside
    obtain ⟨f, rest, hbody⟩ := parseHelloFields_sound hparse hle
    by_cases hrest : rest = []
    · rw [hrest, List.append_nil] at hbody
      exact ⟨f, hbody⟩
    · exact absurd (h.left f rest hbody hrest) (not_refused body)
  · rintro ⟨f, rfl⟩
    obtain ⟨ch, iter, hparse, hend⟩ := inside_encode f
    refine ⟨⟨ch, iter, hparse, hend.le⟩, ?_, ?_⟩
    · intro hnone
      exact absurd ⟨f, [], (List.append_nil _).symm⟩ hnone
    · intro f' rest hbody hrest
      exact absurd (eq_nil_of_encode hbody) hrest

/-- The sample with one byte behind its extension block, in its record. -/
def longRecord : Record :=
  Record.ofFragment handshakeType
    (Rfc.handshakeMessage clientHelloType (sampleHello.encode ++ [0])) (by
      rw [Rfc.length_handshakeMessage, List.length_append, sampleHello, length_minimalHello,
        Block.length_val]
      decide)

/-- The byte behind the extension block is no error, and the ServerHello is written. -/
theorem not_staysInBody_left :
    ¬ StaysInBody (sampleHello.encode ++ [0]) ∧
      ∃ w', mainStateMech Sodium.reference sampleEntropy (World.init sampleHeap)
        longRecord.toTLSPlaintext = .ok (0, w') ∧ answers (World.init sampleHeap) w' ≠ [] := by
  constructor
  · intro h
    exact not_refused _ (h.left sampleHello.fields [0] rfl (List.cons_ne_nil _ _))
  · obtain ⟨sharedSecret, hagree⟩ := scalarmult_sample
    obtain ⟨x, hcall⟩ := answered_append (r := longRecord) (w := World.init sampleHeap) rfl rfl
      (by decide) (offers_minimalHello _ samplePoint) rfl rfl hagree
    refine ⟨x.world, hcall, ?_⟩
    rw [x.answers_world]
    exact List.cons_ne_nil _ _

end TLS13
