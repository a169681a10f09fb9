import TLS13.Hello
import TLS13.Loop

/-! What the loop does with the alerts it receives. The branch for alerts prints
the level and the description and falls out of the switch with code 0, so that
the loop reads on as if nothing had come. -/

namespace TLS13

open Lib

variable {S : Sodium}

/-- An alert that ends the connection: a fatal one, or the close of the peer. -/
def EndsConnection (r : TLSPlaintext) : Prop :=
  r.type = alertType ∧ ∃ level description rest, r.fragment = level :: description :: rest ∧
    (level = fatalAlert ∨ description = closeNotifyAlert)

/-- After the records `upTo` the loop is done: with `post` arriving it makes the
same calls, writes the same output and ends in the same state as without. -/
def DoneAfter (S : Sodium) (w : World) (upTo post : List Input) : Prop :=
  serveAll S w (upTo ++ post) = serveAll S w upTo

theorem mainStateMech_alert {ent : Entropy} {w : World} {r : Record} (htype : r.type = alertType)
    {level description : UInt8} {rest : Bytes} (hfrag : r.fragment = level :: description :: rest) :
    mainStateMech S ent w r.toTLSPlaintext = .ok (0, w.log (.received r.toTLSPlaintext)) := by
  have hlevel : readByte r.fragment 0 = .ok level := readByte_eq hfrag
  have hdescription : readByte r.fragment 1 = .ok description := by
    rw [hfrag]
    exact readByte_eq rfl
  have hne : alertType ≠ handshakeType := by decide
  simp only [mainStateMech, r.readBytes_version, htype, if_neg hne, hlevel, hdescription, Checked.bind_ok,
    if_true]
  rfl

theorem EndsConnection.step {a : Input} (h : EndsConnection a.record.toTLSPlaintext) (w : World) :
    (a.call 0).Step S w (w.log (.received a.record.toTLSPlaintext)) := by
  obtain ⟨htype, level, description, rest, hfrag, -⟩ := h
  exact mainStateMech_alert htype hfrag

/-- The loop goes on behind the alert, in the state it was in. -/
theorem serveAll_past_alert {w t : World} {pre : List Input} {a : Input} (post : List Input)
    (hpre : serveAll S w pre = .ok (pre.map (Input.call · 0), t))
    (ha : EndsConnection a.record.toTLSPlaintext) :
    serveAll S w (pre ++ [a] ++ post) = do
      let (calls, u) ← serveAll S (t.log (.received a.record.toTLSPlaintext)) post
      return ((pre ++ [a]).map (Input.call · 0) ++ calls, u) := by
  have hlast : serveAll S t [a] =
      .ok ([a].map (Input.call · 0), t.log (.received a.record.toTLSPlaintext)) :=
    serveAll_cons_of_zero [] (ha.step t)
  have hupTo : serveAll S w (pre ++ [a]) =
      .ok ((pre ++ [a]).map (Input.call · 0), t.log (.received a.record.toTLSPlaintext)) := by
    rw [serveAll_append [a] hpre, hlast, List.map_append]
    rfl
  exact serveAll_append post hupTo

/-- A loop that is given a record makes a call. -/
theorem serveAll_ne_nil {w u : World} {is : List Input} (h : serveAll S w is = .ok ([], u)) :
    is = [] := by
  cases is with
  | nil => rfl
  | cons i is =>
    rcases serveAll_cons_eq_ok h with ⟨rc, -, hcalls, -⟩ | ⟨_, _, -, -, hcalls⟩
    · cases hcalls
    · cases hcalls

/-- Once an alert that ends the connection was received, the loop is done exactly
when nothing more arrives. -/
theorem doneAfter_alert_iff {heap : Allocated} {t : World} {pre post : List Input} {a : Input}
    {calls : List Call} (hpre : serveAll S (World.init heap) pre = .ok (calls, t))
    (hcodes : ∀ c ∈ calls, c.code = 0) (ha : EndsConnection a.record.toTLSPlaintext) :
    DoneAfter S (World.init heap) (pre ++ [a]) post ↔ post = [] := by
  rw [serveAll_calls_eq hpre hcodes] at hpre
  have hupTo := serveAll_past_alert [] hpre ha
  rw [List.append_nil] at hupTo
  constructor
  · intro h
    rw [DoneAfter, serveAll_past_alert post hpre ha, hupTo] at h
    obtain ⟨⟨calls', u⟩, hpost, hsame⟩ := Checked.bind_eq_ok.mp h
    have hnil : calls' = [] := by
      have hcalls := congrArg (·.1) (Except.ok.inj hsame)
      simpa using hcalls
    subst hnil
    exact serveAll_ne_nil hpost
  · intro hpost
    rw [DoneAfter, hpost, List.append_nil]

theorem length_handshakeFailure : ([fatalAlert, 40] : Bytes).length < 256 ^ 2 := by decide

/-- A fatal handshake_failure alert, as a client sends it that has given up. -/
def handshakeFailure : Input :=
  ⟨sampleEntropy, Record.ofFragment alertType [fatalAlert, 40] length_handshakeFailure⟩

theorem endsConnection_handshakeFailure :
    EndsConnection handshakeFailure.record.toTLSPlaintext :=
  ⟨rfl, fatalAlert, 40, [], rfl, .inl rfl⟩

theorem serveAll_sampleCcs :
    serveAll Sodium.reference (World.init sampleHeap) [⟨sampleEntropy, sampleCcs⟩] =
      .ok ([⟨sampleEntropy, sampleCcs, 0⟩],
        (World.init sampleHeap).log (.received sampleCcs.toTLSPlaintext)) := rfl

/-- Behind a change_cipher_spec record and with nothing after the alert the loop is done. -/
theorem doneAfter_handshakeFailure :
    DoneAfter Sodium.reference (World.init sampleHeap)
      ([⟨sampleEntropy, sampleCcs⟩] ++ [handshakeFailure]) [] :=
  (doneAfter_alert_iff serveAll_sampleCcs (by simp) endsConnection_handshakeFailure).mpr rfl

/-- The sample ClientHello after the alert is answered, with a ServerHello and
EncryptedExtensions. -/
theorem answered_after_handshakeFailure :
    EndsConnection handshakeFailure.record.toTLSPlaintext ∧
      ∃ calls w, serveAll Sodium.reference (World.init sampleHeap)
          [handshakeFailure, ⟨sampleEntropy, sampleRecord⟩] = .ok (calls, w) ∧
        calls.length = 2 ∧ w.state.state = .encrypted ∧ (answers (World.init sampleHeap) w).length = 2 ∧
        ¬ DoneAfter Sodium.reference (World.init sampleHeap) [handshakeFailure]
          [⟨sampleEntropy, sampleRecord⟩] := by
  refine ⟨endsConnection_handshakeFailure, ?_⟩
  have halert := endsConnection_handshakeFailure.step (S := Sodium.reference) (World.init sampleHeap)
  obtain ⟨x, hcall⟩ := mainStateMech_sample ⟨sampleHeap, _, Run.single halert⟩ hello_sampleRecord
  have hloop := serveAll_cons_of_zero [⟨sampleEntropy, sampleRecord⟩] halert
  rw [serveAll_cons_of_zero (i := ⟨sampleEntropy, sampleRecord⟩) [] hcall] at hloop
  refine ⟨_, _, hloop, rfl, rfl, ?_, ?_⟩
  · have htrace : x.world.trace = _ := x.trace_world
    rw [answers, htrace]
    rfl
  · intro hdone
    rw [DoneAfter, List.singleton_append, hloop, serveAll_cons_of_zero [] halert] at hdone
    have hcalls : 2 = 1 := congrArg (·.1.length) (Except.ok.inj hdone)
    omega

end TLS13
