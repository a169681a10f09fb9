import TLS13.Faults
import TLS13.KeyUse
import TLS13.Lib.Machine

/-! What the server is for, and that it is that. The abstract server keeps a
transcript and the handshake it derived its keys from, and nothing else: what a
record says to it does not depend on its state, the keys are functions of the
handshake, and its answers are written in the wire grammar. The code simulates
it, fault for fault, code for code and byte for byte. -/

namespace TLS13

open Lib

variable (S : Sodium)

/-! ### The abstract server -/

/-- What a record says to the server. -/
inductive Heard
  | hello (sessionId : Bytes) (publicKey sharedSecret : Block 32)
  | failedHello
  | otherMessage
  | applicationData
  | passed
  | unknown
  deriving DecidableEq

/-- The record, with the server's private key of the turn. No state is read. -/
def hear (i : Input) : Checked Heard :=
  if i.record.type = handshakeType then do
    let handshake ← parseHandshake i.record.fragment i.record.length.toNat
    if handshake.msgType ≠ clientHelloType then return .otherMessage
    else
      let clientHello ← parseClientHello handshake.body handshake.length.toNat
      match S.scalarmultBase i.entropy.serverPrivateKey with
      | none => return .failedHello
      | some publicKey => do
        let clientKey ← getX25519KeyShare clientHello.extensions
        match S.scalarmult i.entropy.serverPrivateKey clientKey with
        | none => return .failedHello
        | some sharedSecret => return .hello clientHello.sessionId publicKey sharedSecret
  else if i.record.type = alertType then do
    let _level ← readByte i.record.fragment 0
    let _description ← readByte i.record.fragment 1
    return .passed
  else if i.record.type = changeCipherSpecType then return .passed
  else if i.record.type = appliactionType then return .applicationData
  else return .unknown

/-- The transcript so far, and the handshake whose keys are in use. -/
structure AbstractServer where
  transcript : Bytes
  keying : Option Keying

namespace AbstractServer

def init : AbstractServer := ⟨[], none⟩

/-- The next state, the code and the output. -/
def react (a : AbstractServer) (i : Input) : Heard → AbstractServer × (ℤ × List Bytes)
  | .hello sessionId publicKey sharedSecret =>
    let reply := serverHelloMessage i.entropy.random sessionId publicKey
    let keying : Keying := ⟨sharedSecret, a.transcript ++ i.record.fragment ++ reply⟩
    (⟨keying.transcript, some keying⟩,
      (0, [Rfc.plaintextRecord handshakeType reply,
        Rfc.sealRecord S nullEncryptedExtensions handshakeType (i.entropy.rand % 101)
          (keying.firstUse S).1 (keying.firstUse S).2]))
  | .failedHello => ({ a with transcript := a.transcript ++ i.record.fragment }, (-3, []))
  | .otherMessage => (a, (-2, []))
  | .applicationData => (a, if a.keying.isNone then (-40, [unexpectedMessage]) else (0, []))
  | .passed => (a, (0, []))
  | .unknown => (a, (-50, []))

def machine : Machine AbstractServer Input (ℤ × List Bytes) Fault where
  step a i := (hear S i).map (a.react S i)
  stops answer := answer.1 ≠ 0

end AbstractServer

/-- The state machine of the code, with what it writes. -/
def codeMachine : Machine World Input (ℤ × List Bytes) Fault where
  step w i :=
    (mainStateMech S i.entropy w i.record.toTLSPlaintext).map fun v => (v.2, (v.1, answers w v.2))
  stops answer := answer.1 ≠ 0

/-! ### The abstraction -/

/-- The secrets, keys and counters of a state are those of a handshake. -/
structure KeyedBy (s : TLSServerState) (k : Keying) : Prop where
  handshakeSecret : s.handshakeSecret = Rfc.handshakeSecret S k.sharedSecret
  serverSecret : s.serverHandshakeTrafficSecret = k.secret S
  clientSecret : s.clientHandshakeTrafficSecret =
    Rfc.clientHandshakeTrafficSecret S k.sharedSecret (S.hashSha256 k.transcript)
  serverKey : s.serverWriteKey = k.key S
  serverIv : s.serverWriteIv = Rfc.writeIv S (k.secret S)
  clientKey : s.clientWriteKey = Rfc.writeKey S s.clientHandshakeTrafficSecret
  clientIv : s.clientWriteIv = Rfc.writeIv S s.clientHandshakeTrafficSecret
  counters : s.serverNonceCounter = 0 ∧ s.clientNonceCounter = 0

/-- The abstract state of a state of the code. -/
structure Abstracts (w : World) (a : AbstractServer) : Prop where
  suite : w.state.cipherSuite = tlsChacha20Poly1305Sha256Num
  transcript : w.state.hashState.absorbed = a.transcript
  unencrypted : a.keying = none → w.state.state = .unencrypted
  encrypted : ∀ k, a.keying = some k → w.state.state = .encrypted ∧ KeyedBy S w.state k

variable {S}

theorem abstracts_init (heap : Allocated) : Abstracts S (World.init heap) AbstractServer.init :=
  ⟨rfl, rfl, fun _ => rfl, fun _ h => by cases h⟩

/-- Events and the shared secret are no part of the abstract state. -/
theorem Abstracts.log {w : World} {a : AbstractServer} (h : Abstracts S w a) (e : Event) :
    Abstracts S (w.log e) a := ⟨h.suite, h.transcript, h.unencrypted, h.encrypted⟩

theorem Abstracts.failedHello {w : World} {a : AbstractServer} (h : Abstracts S w a)
    (fragment : Bytes) (residue : Block 32) :
    Abstracts S ((w.absorb fragment).storeSharedSecret residue)
      { a with transcript := a.transcript ++ fragment } where
  suite := h.suite
  transcript := congrArg (· ++ fragment) h.transcript
  unencrypted := h.unencrypted
  encrypted k hk := by
    obtain ⟨hstate, hkeyed⟩ := h.encrypted k hk
    exact ⟨hstate, hkeyed.handshakeSecret, hkeyed.serverSecret, hkeyed.clientSecret,
      hkeyed.serverKey, hkeyed.serverIv, hkeyed.clientKey, hkeyed.clientIv, hkeyed.counters⟩

/-- The world of an exchange is keyed by the transcript up to the reply. -/
theorem Abstracts.exchange {w : World} {a : AbstractServer} (h : Abstracts S w a) {ent : Entropy}
    {r : TLSPlaintext} (x : Exchange S ent w r) :
    Abstracts S x.world
      ⟨a.transcript ++ r.fragment ++ x.reply,
        some ⟨x.sharedSecret, a.transcript ++ r.fragment ++ x.reply⟩⟩ := by
  rw [← h.transcript]
  refine ⟨h.suite, x.absorbed_world, fun hnone => (Option.some_ne_none _ hnone).elim, ?_⟩
  intro k hk
  obtain rfl := Option.some.inj hk
  exact ⟨rfl, rfl, rfl, rfl, rfl, rfl, rfl, rfl, rfl, rfl⟩

/-! ### One call -/

/-- A call that gives the abstract answer to what was heard. -/
def Answers (S : Sodium) (a : AbstractServer) (i : Input) (w : World) (heard : Heard) : Prop :=
  ∃ w', mainStateMech S i.entropy w i.record.toTLSPlaintext = .ok ((a.react S i heard).2.1, w') ∧
    answers w w' = (a.react S i heard).2.2 ∧ Abstracts S w' (a.react S i heard).1

variable {a : AbstractServer} {w : World} {i : Input}

theorem answers_failedHello (h : Abstracts S w a) (htype : i.record.type = handshakeType)
    {hs : Handshake} {ch : ClientHello}
    (hparse : parseHandshake i.record.fragment i.record.length.toNat = .ok hs)
    (hmsg : hs.msgType = clientHelloType)
    (hch : parseClientHello hs.body hs.length.toNat = .ok ch) {rc : ℤ} (hrc : rc ≠ 0)
    (residue : Block 32)
    (hshake : clientHelloServerHelloHandshake S i.entropy
      ((w.log (.received i.record.toTLSPlaintext)).absorb i.record.fragment) ch =
        .ok (rc, ((w.log (.received i.record.toTLSPlaintext)).absorb
          i.record.fragment).storeSharedSecret residue)) :
    Answers S a i w .failedHello := by
  have hnext := (h.log (.received i.record.toTLSPlaintext)).failedHello i.record.fragment residue
  refine ⟨_, ?_, ?_, hnext⟩
  · rw [mainStateMech_handshake S htype]
    simp only [handleHandshake, hparse, hmsg, hch, i.record.readBytes_fragment, hshake,
      Checked.bind_ok, ne_eq, not_true_eq_false, if_false, if_pos hrc]
    rfl
  · exact answers_of_trace [.received i.record.toTLSPlaintext] rfl

theorem answers_clientHello (h : Abstracts S w a) (htype : i.record.type = handshakeType)
    {hs : Handshake} {ch : ClientHello}
    (hparse : parseHandshake i.record.fragment i.record.length.toNat = .ok hs)
    (hmsg : hs.msgType = clientHelloType)
    (hch : parseClientHello hs.body hs.length.toNat = .ok ch) :
    match hear S i with
    | .error e => mainStateMech S i.entropy w i.record.toTLSPlaintext = .error e
    | .ok heard => Answers S a i w heard := by
  have hsuite : ((w.log (.received i.record.toTLSPlaintext)).absorb
      i.record.fragment).state.cipherSuite = tlsChacha20Poly1305Sha256Num := h.suite
  simp only [hear, if_pos htype, hparse, hmsg, hch, Checked.bind_ok, ne_eq, not_true_eq_false,
    if_false]
  cases hbase : S.scalarmultBase i.entropy.serverPrivateKey with
  | none =>
    refine answers_failedHello h htype hparse hmsg hch (show (-3 : ℤ) ≠ 0 by decide)
      w.state.sharedSecret ?_
    rw [clientHelloServerHelloHandshake, if_pos hsuite, hbase]
    rfl
  | some publicKey =>
    cases hshare : getX25519KeyShare ch.extensions with
    | error e =>
      rw [mainStateMech_handshake S htype]
      simp only [handleHandshake, hparse, hmsg, hch, i.record.readBytes_fragment,
        clientHelloServerHelloHandshake, if_pos hsuite, hbase, hshare, Checked.bind_ok,
        Checked.bind_error, ne_eq, not_true_eq_false, if_false]
    | ok clientKey =>
      cases hagree : S.scalarmult i.entropy.serverPrivateKey clientKey with
      | none =>
        simp only [Checked.bind_ok, hagree]
        refine answers_failedHello h htype hparse hmsg hch (show (-4 : ℤ) ≠ 0 by decide)
          (S.scalarmultResidue w.state.sharedSecret i.entropy.serverPrivateKey clientKey) ?_
        rw [clientHelloServerHelloHandshake, if_pos hsuite, hbase]
        simp only [hshare, hagree, Checked.bind_ok]
        rfl
      | some sharedSecret =>
        simp only [Checked.bind_ok, hagree]
        let x : Exchange S i.entropy w i.record.toTLSPlaintext :=
          ⟨hs, ch, publicKey, clientKey, sharedSecret, hparse, hmsg, hch, h.suite, hbase, hshare,
            hagree, (parseClientHello_sessionId hch).ge⟩
        refine ⟨x.world, mainStateMech_of_exchange S htype x, ?_, h.exchange x⟩
        obtain ⟨-, hkeyed⟩ := (h.exchange x).encrypted _ rfl
        rw [x.answers_world, hkeyed.serverKey, hkeyed.serverIv]
        rfl

theorem answers_handshake (h : Abstracts S w a) (htype : i.record.type = handshakeType) :
    match hear S i with
    | .error e => mainStateMech S i.entropy w i.record.toTLSPlaintext = .error e
    | .ok heard => Answers S a i w heard := by
  cases hparse : parseHandshake i.record.fragment i.record.length.toNat with
  | error e =>
    simp only [hear, if_pos htype, hparse, Checked.bind_error]
    rw [mainStateMech_handshake S htype]
    simp only [handleHandshake, hparse, Checked.bind_error]
  | ok hs =>
    by_cases hmsg : hs.msgType = clientHelloType
    · cases hch : parseClientHello hs.body hs.length.toNat with
      | error e =>
        simp only [hear, if_pos htype, hparse, hmsg, hch, Checked.bind_ok, Checked.bind_error,
          ne_eq, not_true_eq_false, if_false]
        rw [mainStateMech_handshake S htype]
        simp only [handleHandshake, hparse, hmsg, hch, Checked.bind_ok, Checked.bind_error, ne_eq,
          not_true_eq_false, if_false]
      | ok ch => exact answers_clientHello h htype hparse hmsg hch
    · simp only [hear, if_pos htype, hparse, hmsg, Checked.bind_ok, ne_eq, not_false_eq_true,
        if_true]
      refine ⟨_, ?_, answers_received w i.record.toTLSPlaintext, h.log _⟩
      rw [mainStateMech_handshake S htype]
      simp only [handleHandshake, hparse, hmsg, Checked.bind_ok, ne_eq, not_false_eq_true, if_true]
      rfl

/-- Application data is refused while there are no keys, and passed over after. -/
theorem answers_applicationData (h : Abstracts S w a) (happ : i.record.type = appliactionType) :
    Answers S a i w .applicationData := by
  have hlog := h.log (.received i.record.toTLSPlaintext)
  have hcall : mainStateMech S i.entropy w i.record.toTLSPlaintext =
      .ok (handleApplicationData (w.log (.received i.record.toTLSPlaintext))) := by
    simp only [mainStateMech, i.record.readBytes_version, Checked.bind_ok, happ]
    rfl
  cases hk : a.keying with
  | none =>
    have hstate : (w.log (.received i.record.toTLSPlaintext)).state.state = .unencrypted :=
      h.unencrypted hk
    rw [handleApplicationData, if_pos hstate] at hcall
    refine ⟨_, ?_, ?_, hlog.log (.wrote unexpectedMessage)⟩
    · simp only [AbstractServer.react, hk, Option.isNone_none, if_true]
      exact hcall
    · simp only [AbstractServer.react, hk, Option.isNone_none, if_true]
      exact answers_of_trace [.received i.record.toTLSPlaintext, .wrote unexpectedMessage]
        (List.append_assoc _ _ _)
  | some k =>
    have hstate : (w.log (.received i.record.toTLSPlaintext)).state.state = .encrypted :=
      (h.encrypted k hk).1
    have hne : ¬ (w.log (.received i.record.toTLSPlaintext)).state.state = .unencrypted := by
      rw [hstate]
      decide
    rw [handleApplicationData, if_neg hne] at hcall
    have hanswers := answers_received w i.record.toTLSPlaintext
    refine ⟨_, ?_, ?_, hlog⟩
    · simp only [AbstractServer.react, hk, Option.isNone_some]
      exact hcall
    · simp only [AbstractServer.react, hk, Option.isNone_some]
      exact hanswers

/-- Every call faults or answers as the abstract server does, and stays abstracted by it. -/
theorem answers_hear (h : Abstracts S w a) (i : Input) :
    match hear S i with
    | .error e => mainStateMech S i.entropy w i.record.toTLSPlaintext = .error e
    | .ok heard => Answers S a i w heard := by
  by_cases htype : i.record.type = handshakeType
  · exact answers_handshake h htype
  · have hanswers := answers_received w i.record.toTLSPlaintext
    have hlog := h.log (.received i.record.toTLSPlaintext)
    have hcall : mainStateMech S i.entropy w i.record.toTLSPlaintext =
        (if i.record.type = alertType then do
          let _level ← readByte i.record.fragment 0
          let _description ← readByte i.record.fragment 1
          return (0, w.log (.received i.record.toTLSPlaintext))
        else if i.record.type = changeCipherSpecType then
          return (0, w.log (.received i.record.toTLSPlaintext))
        else if i.record.type = appliactionType then
          return handleApplicationData (w.log (.received i.record.toTLSPlaintext))
        else return (-50, w.log (.received i.record.toTLSPlaintext))) := by
      simp only [mainStateMech, i.record.readBytes_version, Checked.bind_ok, if_neg htype]
    by_cases halert : i.record.type = alertType
    · rw [if_pos halert] at hcall
      rw [hear, if_neg htype, if_pos halert]
      cases hlevel : readByte i.record.fragment 0 with
      | error e =>
        rw [hlevel] at hcall
        exact hcall
      | ok level =>
        cases hdescription : readByte i.record.fragment 1 with
        | error e =>
          rw [hlevel, hdescription] at hcall
          exact hcall
        | ok description =>
          rw [hlevel, hdescription] at hcall
          exact ⟨_, hcall, hanswers, hlog⟩
    · by_cases hccs : i.record.type = changeCipherSpecType
      · rw [if_neg halert, if_pos hccs] at hcall
        rw [hear, if_neg htype, if_neg halert, if_pos hccs]
        exact ⟨_, hcall, hanswers, hlog⟩
      · by_cases happ : i.record.type = appliactionType
        · rw [hear, if_neg htype, if_neg halert, if_neg hccs, if_pos happ]
          exact answers_applicationData h happ
        · rw [if_neg halert, if_neg hccs, if_neg happ] at hcall
          rw [hear, if_neg htype, if_neg halert, if_neg hccs, if_neg happ]
          exact ⟨_, hcall, hanswers, hlog⟩

/-! ### Runs -/

theorem codeMachine_simulates :
    Machine.Simulates (codeMachine S) (AbstractServer.machine S) (Abstracts S) where
  stops := rfl
  step_error := by
    intro w a i e h hstep
    have hcall := answers_hear h i
    cases hhear : hear S i with
    | error e' =>
      rw [hhear] at hcall
      have hfault : mainStateMech S i.entropy w i.record.toTLSPlaintext = .error e' := hcall
      obtain rfl : e' = e := by simpa [AbstractServer.machine, hhear, Except.map] using hstep
      simp only [codeMachine, hfault, Except.map]
    | ok heard => simp [AbstractServer.machine, hhear, Except.map] at hstep
  step_ok := by
    intro w a a' i out h hstep
    have hcall := answers_hear h i
    cases hhear : hear S i with
    | error e => simp [AbstractServer.machine, hhear, Except.map] at hstep
    | ok heard =>
      rw [hhear] at hcall
      obtain ⟨w', hok, hout, hnext⟩ := hcall
      have hreact : a.react S i heard = (a', out) := by
        simpa [AbstractServer.machine, hhear, Except.map] using hstep
      rw [hreact] at hok hout hnext
      refine ⟨w', ?_, hnext⟩
      simp only [codeMachine, hok, Except.map, hout]

/-- How a process ends after these turns: by the fault, by the code of the last
turn, or because no further record is read. -/
def endingOf (turns : List (ℤ × List Bytes)) : Option Fault → Ending
  | some e => .faulted e
  | none =>
    match turns.getLast? with
    | some (rc, _) => if rc ≠ 0 then .refused rc else .readFailed
    | none => .readFailed

theorem endingOf_cons (out : List Bytes) (turns : List (ℤ × List Bytes)) (fault : Option Fault) :
    endingOf ((0, out) :: turns) fault = endingOf turns fault := by
  cases fault with
  | some e => rfl
  | none =>
    cases turns with
    | nil => rfl
    | cons turn turns => rw [endingOf, endingOf, List.getLast?_cons_cons]

/-- The loop of `main` makes the steps of the machine. -/
theorem serveRecords_eq_run (recs : List Record) (w : World) (entropy : ℕ → Entropy) :
    ∃ events,
      closed (serveRecords S (w, entropy) recs) =
        (((codeMachine S).run w (inputs entropy recs)).state,
          endingOf ((codeMachine S).run w (inputs entropy recs)).answers
            ((codeMachine S).run w (inputs entropy recs)).fault) ∧
      ((codeMachine S).run w (inputs entropy recs)).state.trace = w.trace ++ events ∧
      answers w ((codeMachine S).run w (inputs entropy recs)).state =
        ((codeMachine S).run w (inputs entropy recs)).answers.flatMap Prod.snd := by
  induction recs generalizing w entropy with
  | nil => exact ⟨[], rfl, (List.append_nil _).symm, answers_self w⟩
  | cons r recs ih =>
    have hinputs : inputs entropy (r :: recs) =
        ⟨entropy 0, r⟩ :: inputs (fun i => entropy (i + 1)) recs := rfl
    rw [hinputs]
    cases hcall : mainStateMech S (entropy 0) w r.toTLSPlaintext with
    | error e =>
      have hstep : (codeMachine S).step w ⟨entropy 0, r⟩ = .error e := by
        simp only [codeMachine, hcall, Except.map]
      have hturn : turn S (w, entropy) r = .error (w, .faulted e) := turn_of_fault hcall
      rw [Machine.run_error hstep, serveRecords_of_error hturn]
      exact ⟨[], rfl, (List.append_nil _).symm, answers_self w⟩
    | ok v =>
      obtain ⟨rc, w'⟩ := v
      have hstep : (codeMachine S).step w ⟨entropy 0, r⟩ = .ok (w', (rc, answers w w')) := by
        simp only [codeMachine, hcall, Except.map]
      obtain ⟨events, htrace⟩ := (mainStateMech_outcome S hcall).trace
      by_cases hrc : rc = 0
      · subst hrc
        obtain ⟨events', hrest, htrace', hout⟩ := ih w' fun i => entropy (i + 1)
        have hturn : turn S (w, entropy) r = .ok (w', fun i => entropy (i + 1)) :=
          turn_of_zero hcall
        rw [Machine.run_go hstep rfl, serveRecords_of_ok hturn, hrest, endingOf_cons]
        refine ⟨events ++ events', rfl, ?_, ?_⟩
        · rw [htrace', htrace, List.append_assoc]
        · rw [answers_append htrace htrace', hout]
          rfl
      · have hturn : turn S (w, entropy) r = .error (w', .refused rc) := turn_of_code hrc hcall
        rw [Machine.run_stop hstep (decide_eq_true hrc), serveRecords_of_error hturn]
        refine ⟨events, ?_, htrace, (List.append_nil _).symm⟩
        simp only [closed, endingOf, List.getLast?_singleton, if_pos hrc]

/-- On every stream of bytes, delivered by any schedule, the process does what the
abstract server does on the records that arrive, the front of the stream: it ends the
same way and writes the same bytes, and the abstract state describes the one it leaves. -/
theorem mainLoop_refines (S : Sodium) (heap : Allocated) (entropy : ℕ → Entropy)
    (socket : ByteStream) :
    let abstract := (AbstractServer.machine S).run AbstractServer.init
      (inputs entropy (arrivals socket))
    (arrivals socket).flatMap Record.encode <+: socket.pending ∧
      ∃ w, mainLoop S (World.init heap, entropy) socket =
          (w, endingOf abstract.answers abstract.fault) ∧
        answers (World.init heap) w = abstract.answers.flatMap Prod.snd ∧
        Abstracts S w abstract.state := by
  obtain ⟨hanswers, hfault, hstate⟩ := codeMachine_simulates.run (abstracts_init (S := S) heap)
    (inputs entropy (arrivals socket))
  obtain ⟨_, hloop, -, hout⟩ := serveRecords_eq_run (S := S) (arrivals socket) (World.init heap)
    entropy
  refine ⟨arrivals_encode socket, _, ?_, ?_, hstate⟩
  · rw [mainLoop_eq_serveRecords, hloop, hanswers, hfault]
  · rw [hout, hanswers]

end TLS13
