import TLS13.Agreement
import TLS13.Process

/-! The connection from end to end. The client's first handshake record stands
anywhere among other records, the socket delivers as it likes, and the client
splits the bytes that come back. Either no key was installed and no more than an
alert was written, or the client holds the first keys of the server. -/

namespace TLS13

open Lib

/-- The key of an event that installs one. -/
def Event.installedKey : Event → Option (Block 32)
  | .installed key => some key
  | _ => none

/-- The bytes on the socket. -/
def output (trace : List Event) : Bytes := (trace.filterMap Event.written).flatten

def installedKeys (trace : List Event) : List (Block 32) := trace.filterMap Event.installedKey

theorem output_append (trace events : List Event) :
    output (trace ++ events) = output trace ++ output events := by
  simp [output]

theorem installedKeys_append (trace events : List Event) :
    installedKeys (trace ++ events) = installedKeys trace ++ installedKeys events :=
  List.filterMap_append

/-- No key, and no more than the alert. -/
def Unanswered (trace : List Event) : Prop :=
  installedKeys trace = [] ∧ (output trace = [] ∨ output trace = unexpectedMessage)

/-- The records were received and nothing else was done. -/
def received (recs : List Record) : List Event := recs.map fun r => .received r.toTLSPlaintext

theorem output_received (recs : List Record) : output (received recs) = [] := by
  simp [output, received, List.filterMap_map, Event.written]

theorem installedKeys_received (recs : List Record) : installedKeys (received recs) = [] := by
  simp [installedKeys, received, List.filterMap_map, Event.installedKey]

theorem unanswered_received (recs : List Record) : Unanswered (received recs) :=
  ⟨installedKeys_received recs, .inl (output_received recs)⟩

variable {S : Sodium}

/-! ### The loop up to the first handshake record -/

/-- The loop ended without an answer. -/
def EndsUnanswered (w : World) (x : Except (World × Ending) (World × (ℕ → Entropy))) : Prop :=
  ∃ last events, x = .error last ∧ last.1.trace = w.trace ++ events ∧ Unanswered events

/-- A call that faults, or refuses a record that it received, leaves no answer. -/
theorem endsUnanswered_of_fault {st : World × (ℕ → Entropy)} {r : Record} {e : Fault}
    (h : mainStateMech S (st.2 0) st.1 r.toTLSPlaintext = .error e) :
    EndsUnanswered st.1 (turn S st r) :=
  ⟨_, [], turn_of_fault h, (List.append_nil _).symm, unanswered_received []⟩

theorem endsUnanswered_of_code {st : World × (ℕ → Entropy)} {r : Record} {rc : ℤ} {w : World}
    (hrc : rc ≠ 0) (h : mainStateMech S (st.2 0) st.1 r.toTLSPlaintext = .ok (rc, w))
    {events : List Event} (hw : w.trace = st.1.trace ++ events) (hevents : Unanswered events) :
    EndsUnanswered st.1 (turn S st r) :=
  ⟨_, events, turn_of_code hrc h, hw, hevents⟩

/-- A record that is no handshake message is passed over, or ends the loop with
the alert at most. -/
theorem turn_of_other (st : World × (ℕ → Entropy)) {r : Record} (hr : r.type ≠ handshakeType) :
    turn S st r = .ok (st.1.log (.received r.toTLSPlaintext), fun i => st.2 (i + 1)) ∨
      EndsUnanswered st.1 (turn S st r) := by
  cases hcall : mainStateMech S (st.2 0) st.1 r.toTLSPlaintext with
  | error e => exact .inr (endsUnanswered_of_fault hcall)
  | ok v =>
    obtain ⟨rc, w⟩ := v
    cases mainStateMech_outcome S hcall with
    | answered _ htype => exact absurd htype hr
    | rejected _ htype _ _ => exact absurd htype hr
    | otherMessage htype _ _ => exact absurd htype hr
    | early _ _ =>
      have halert : Unanswered [.received r.toTLSPlaintext, .wrote unexpectedMessage] :=
        ⟨rfl, .inr (List.append_nil _)⟩
      exact .inr (endsUnanswered_of_code (by decide) hcall (List.append_assoc _ _ _) halert)
    | ignored _ _ => exact .inl (turn_of_zero hcall)
    | unknown _ _ _ _ =>
      exact .inr (endsUnanswered_of_code (by decide) hcall rfl (unanswered_received [r]))

/-- A handshake record is answered, or ends the loop without a byte. -/
theorem turn_of_handshake (st : World × (ℕ → Entropy)) {r : Record} (hr : r.type = handshakeType) :
    (∃ x : Exchange S (st.2 0) st.1 r.toTLSPlaintext,
        turn S st r = .ok (x.world, fun i => st.2 (i + 1))) ∨
      EndsUnanswered st.1 (turn S st r) := by
  cases hcall : mainStateMech S (st.2 0) st.1 r.toTLSPlaintext with
  | error e => exact .inr (endsUnanswered_of_fault hcall)
  | ok v =>
    obtain ⟨rc, w⟩ := v
    cases mainStateMech_outcome S hcall with
    | answered x _ => exact .inl ⟨x, turn_of_zero hcall⟩
    | rejected _ _ _ _ =>
      exact .inr (endsUnanswered_of_code (by decide) hcall rfl (unanswered_received [r]))
    | otherMessage _ _ _ =>
      exact .inr (endsUnanswered_of_code (by decide) hcall rfl (unanswered_received [r]))
    | early htype _ => exact absurd (hr.symm.trans htype) (by decide)
    | ignored htype _ => exact absurd hr htype
    | unknown htype _ _ _ => exact absurd hr htype

/-- The records in front of the first handshake record are received, or end the loop. -/
theorem serveRecords_others {before : List Record} (hbefore : ∀ b ∈ before, b.type ≠ handshakeType)
    (st : World × (ℕ → Entropy)) :
    serveRecords S st before =
        .ok (⟨st.1.state, st.1.trace ++ received before⟩, fun i => st.2 (i + before.length)) ∨
      EndsUnanswered st.1 (serveRecords S st before) := by
  induction before generalizing st with
  | nil =>
    left
    rw [received, List.map_nil, List.append_nil]
    rfl
  | cons b before ih =>
    rcases turn_of_other (S := S) st (hbefore b (by simp)) with hturn |
      ⟨last, events, hturn, htrace, hevents⟩
    · rw [serveRecords_of_ok hturn]
      rcases ih (fun b hb => hbefore b (List.mem_cons_of_mem _ hb)) _ with hrest |
        ⟨last, events, hrest, htrace, hevents⟩
      · left
        refine hrest.trans ?_
        simp only [World.log, received, List.map_cons, List.length_cons, List.append_assoc,
          List.singleton_append]
        rfl
      · refine .inr ⟨last, .received b.toTLSPlaintext :: events, hrest, ?_, hevents⟩
        rw [htrace, World.log, List.append_assoc, List.singleton_append]
    · rw [serveRecords_of_error hturn]
      exact .inr ⟨last, events, rfl, htrace, hevents⟩

/-! ### The two ends -/

/-- What a client has to hold when the server is in this state. -/
def TLSServerState.session (state : TLSServerState) : Rfc.Session where
  serverSecret := state.serverHandshakeTrafficSecret
  clientSecret := state.clientHandshakeTrafficSecret
  serverKey := state.serverWriteKey
  serverIv := state.serverWriteIv
  clientKey := state.clientWriteKey
  clientIv := state.clientWriteIv
  content := nullEncryptedExtensions
  contentType := handshakeType

/-- A client that is given the two records of the first exchange holds what the server holds. -/
theorem Exchange.clientHandshake (hS : S.OpensSealed) {ent : Entropy} {w : World} {r : Record}
    {ch : Rfc.ClientHello} {c k : Block 32} (x : Exchange S ent w r.toTLSPlaintext) (h : Hello ch r)
    (hw : w.state.hashState.absorbed = []) (hoffer : ch.OffersX25519 k)
    (hk : S.scalarmultBase c = some k) (hagree : S.Agree ent.serverPrivateKey c) :
    Rfc.clientHandshake S c r.fragment (Rfc.plaintextRecord handshakeType x.reply)
        (Rfc.sealRecord S nullEncryptedExtensions handshakeType (ent.rand % 101)
          x.world.state.serverWriteKey (Rfc.recordNonce x.world.state.serverWriteIv 0)) =
      some x.world.state.session := by
  have hsecret := x.scalarmult_client h hoffer hk hagree
  have hhash : S.hashSha256 (w.state.hashState.absorbed ++ r.fragment ++ x.reply) =
      S.hashSha256 (r.fragment ++
        serverHelloMessage ent.random x.clientHello.sessionId x.serverPublicKey) := by
    rw [hw, List.nil_append]
    rfl
  exact clientHandshake_answer hS ent.random r.fragment (ent.rand % 101)
    x.clientHello.length_sessionId_lt hsecret hhash rfl rfl

/-- The client finds the two records of an exchange at the front of a stream. -/
theorem Exchange.clientStream {ent : Entropy} {w : World} {r : TLSPlaintext}
    (x : Exchange S ent w r) (c : Block 32) (clientHello rest : Bytes) :
    Rfc.clientStream S c clientHello ((answers w x.world).flatten ++ rest) =
      (Rfc.clientHandshake S c clientHello (Rfc.plaintextRecord handshakeType x.reply)
        (Rfc.sealRecord S nullEncryptedExtensions handshakeType (ent.rand % 101)
          x.world.state.serverWriteKey (Rfc.recordNonce x.world.state.serverWriteIv 0))).map
            (·, rest) := by
  have hid := x.clientHello.length_sessionId_lt
  have hreply : x.reply.length ≤ 2 ^ 14 := by
    rw [Exchange.reply, length_serverHelloMessage]
    omega
  have hpad : ent.rand % 101 < 101 := Nat.mod_lt _ (by norm_num)
  have hnull : nullEncryptedExtensions.length = 6 := rfl
  have hsealed (ad : Bytes) (key : Block 32) (nonce : Block 12) :
      (S.aeadEncrypt (Rfc.innerPlaintext nullEncryptedExtensions handshakeType (ent.rand % 101)) ad
        nonce key).val.length ≤ 2 ^ 14 := by
    rw [Block.length_val, Rfc.length_innerPlaintext, hnull]
    omega
  rw [x.answers_world]
  simp only [Rfc.clientStream, Rfc.sealRecord, List.flatten_cons, List.flatten_nil, List.append_nil,
    List.append_assoc, Rfc.splitRecord_append _ hreply, Rfc.splitRecord_append _ (hsealed _ _ _),
    Option.bind_eq_bind, Option.bind_some]
  cases Rfc.clientHandshake S c clientHello _ _ <;> rfl

/-- Behind a trace without output and keys, an exchange writes and installs first. -/
theorem Exchange.output_of_prefix {ent : Entropy} {w : World} {r : TLSPlaintext}
    (x : Exchange S ent w r) {trace : List Event} (h : x.world.trace <+: trace)
    (hout : output w.trace = []) (hkeys : installedKeys w.trace = []) :
    (∃ rest, output trace = (answers w x.world).flatten ++ rest) ∧
      (installedKeys trace).head? = some x.world.state.serverWriteKey := by
  obtain ⟨more, rfl⟩ := h
  have hanswers := answers_of_trace _ x.trace_world
  have hoff : output x.world.trace = (answers w x.world).flatten := by
    rw [hanswers, x.trace_world, output_append, hout, List.nil_append]
    rfl
  refine ⟨⟨output more, by rw [output_append, hoff]⟩, ?_⟩
  rw [installedKeys_append, x.trace_world, installedKeys_append, hkeys]
  rfl

/-- From a state with an empty transcript and no output: the loop on the record
of a client and on what follows it. -/
theorem serveRecords_client (hS : S.OpensSealed) {st : World × (ℕ → Entropy)} {r : Record}
    {ch : Rfc.ClientHello} {c k : Block 32} (after : List Record) (h : Hello ch r)
    (hw : st.1.state.hashState.absorbed = []) (hout : output st.1.trace = [])
    (hkeys : installedKeys st.1.trace = []) (hoffer : ch.OffersX25519 k)
    (hk : S.scalarmultBase c = some k) (hagree : S.Agree (st.2 0).serverPrivateKey c) :
    (∃ last, serveRecords S st [r] = .error last) ∧
        Unanswered (closed (serveRecords S st (r :: after))).1.trace ∨
      ∃ w entropy' rest, serveRecords S st [r] = .ok (w, entropy') ∧ w.state.state = .encrypted ∧
        Rfc.clientStream S c r.fragment
          (output (closed (serveRecords S st (r :: after))).1.trace) =
            some (w.state.session, rest) ∧
        (installedKeys (closed (serveRecords S st (r :: after))).1.trace).head? =
          some w.state.serverWriteKey := by
  rcases turn_of_handshake (S := S) st h.isHandshake with ⟨x, hturn⟩ |
    ⟨last, events, hends, htrace, hevents⟩
  · right
    have hgrows := serveRecords_trace (S := S) after (x.world, fun i => st.2 (i + 1))
    rw [← serveRecords_of_ok hturn] at hgrows
    obtain ⟨⟨rest, hrest⟩, hkey⟩ := x.output_of_prefix hgrows hout hkeys
    refine ⟨x.world, _, rest, serveRecords_of_ok hturn [], rfl, ?_, hkey⟩
    rw [hrest, x.clientStream, x.clientHandshake hS h hw hoffer hk hagree]
    rfl
  · left
    refine ⟨⟨last, serveRecords_of_error hends []⟩, ?_⟩
    rw [serveRecords_of_error hends, closed, htrace]
    exact ⟨by rw [installedKeys_append, hkeys, hevents.1]; rfl,
      by rw [output_append, hout]; exact hevents.2⟩

/-- The fragment of the first handshake record is a ClientHello with the key of `c`.
Then either the loop ends at it or before, no key is installed and at most an alert
is written, or the client finds the session in the output, and it is what the
server held after that record, with the first key it installed. -/
theorem stream_agreement (hS : S.OpensSealed) {heap : Allocated} {entropy : ℕ → Entropy}
    {socket : ByteStream} {before after : List Record} {ch : Rfc.ClientHello} {r : Record}
    {c k : Block 32} (harrive : arrivals socket = before ++ r :: after)
    (hbefore : ∀ b ∈ before, b.type ≠ handshakeType) (hr : r.type = handshakeType)
    (hfragment : r.fragment = Rfc.handshakeMessage clientHelloType ch.encode)
    (hk : S.scalarmultBase c = some k) (hoffer : ch.OffersX25519 k)
    (hagree : S.Agree (entropy before.length).serverPrivateKey c) :
    (∃ last, serveRecords S (World.init heap, entropy) (before ++ [r]) = .error last) ∧
        Unanswered (mainLoop S (World.init heap, entropy) socket).1.trace ∨
      ∃ w entropy' rest,
        serveRecords S (World.init heap, entropy) (before ++ [r]) = .ok (w, entropy') ∧
        w.state.state = .encrypted ∧
        Rfc.clientStream S c r.fragment
            (output (mainLoop S (World.init heap, entropy) socket).1.trace) =
          some (w.state.session, rest) ∧
        (installedKeys (mainLoop S (World.init heap, entropy) socket).1.trace).head? =
          some w.state.serverWriteKey := by
  have h : Hello ch r := ⟨[], hr, hfragment.trans (List.append_nil _).symm⟩
  rw [mainLoop_eq_serveRecords, harrive, serveRecords_append, serveRecords_append]
  rcases serveRecords_others hbefore (World.init heap, entropy) with hquiet |
    ⟨last, events, hends, htrace, hevents⟩
  · rw [hquiet]
    have hagree' : S.Agree (entropy (0 + before.length)).serverPrivateKey c := by
      rwa [Nat.zero_add]
    exact serveRecords_client hS after h rfl (output_received before)
      (installedKeys_received before) hoffer hk hagree'
  · left
    rw [hends]
    refine ⟨⟨last, rfl⟩, ?_⟩
    show Unanswered last.1.trace
    rw [htrace]
    exact hevents

/-- The sample ClientHello behind a change_cipher_spec record is answered. -/
theorem serveRecords_sample :
    ∃ st, serveRecords Sodium.reference (World.init sampleHeap, fun _ => sampleEntropy)
      [sampleCcs, sampleRecord] = .ok st := by
  have hccs := mainStateMech_sampleCcs (S := Sodium.reference) (World.init sampleHeap)
  have hw : Reachable Sodium.reference
      ((World.init sampleHeap).log (.received sampleCcs.toTLSPlaintext)) :=
    ⟨sampleHeap, [⟨sampleEntropy, sampleCcs, 0⟩], Run.single hccs⟩
  obtain ⟨x, hcall⟩ := mainStateMech_sample hw hello_sampleRecord
  have hfirst : turn Sodium.reference (World.init sampleHeap, fun _ => sampleEntropy) sampleCcs =
      .ok ((World.init sampleHeap).log (.received sampleCcs.toTLSPlaintext),
        fun _ => sampleEntropy) := turn_of_zero hccs
  have hsecond : turn Sodium.reference
      ((World.init sampleHeap).log (.received sampleCcs.toTLSPlaintext), fun _ => sampleEntropy)
      sampleRecord = .ok (x.world, fun _ => sampleEntropy) := turn_of_zero hcall
  exact ⟨_, (serveRecords_of_ok hfirst _).trans (serveRecords_of_ok hsecond [])⟩

/-- Delivered at once, so the client finds the session. -/
theorem stream_agreement_sample :
    ∃ socket session rest,
      Rfc.clientStream Sodium.reference sampleScalar sampleRecord.fragment
        (output (mainLoop Sodium.reference (World.init sampleHeap, fun _ => sampleEntropy)
          socket).1.trace) = some (session, rest) := by
  have harrive : arrivals (ByteStream.whole ([sampleCcs, sampleRecord].flatMap Record.encode)) =
      [sampleCcs] ++ sampleRecord :: [] := arrivals_records _ rfl (ByteStream.delivers_whole _)
  obtain ⟨st, hserve⟩ := serveRecords_sample
  rcases @stream_agreement Sodium.reference Sodium.opensSealed_reference sampleHeap
    (fun _ => sampleEntropy) _ _ _ _ _ sampleScalar _ harrive (by decide) rfl rfl rfl
    (offers_minimalHello _ samplePoint) agree_sample with
    ⟨⟨last, hends⟩, -⟩ | ⟨w, _, rest, -, -, hclient, -⟩
  · have hne : Except.ok st = (.error last : Except _ _) := hserve.symm.trans hends
    cases hne
  · exact ⟨_, _, rest, hclient⟩

end TLS13
