import TLS13.Hello
import TLS13.Loop

/-! What the server writes over a whole run of the loop. Every ClientHello that
is answered adds a pair to the output, a ServerHello and a protected record; the
only other thing written is the alert that refuses early application data, and
with it the loop ends before anything was answered. -/

namespace TLS13

open Lib

variable (S : Sodium)

/-! ### The output of one call -/

/-- The record that refuses application data. -/
def unexpectedMessage : Bytes := Rfc.plaintextRecord alertType [fatalAlert, unexpectedMessageAlert]

/-- The outer type of a record is that of protected records. -/
def IsProtected (bs : Bytes) : Prop := bs.head? = some appliactionType

/-- The two records of `sh` and `ee` as they follow each other in the output. -/
def flattenPairs (pairs : List (Bytes × Bytes)) : List Bytes := pairs.flatMap fun p => [p.1, p.2]

/-- What an event puts on the socket. -/
def Event.written : Event → Option Bytes
  | .wrote bs => some bs
  | _ => none

theorem answers_of_trace {w w' : World} (events : List Event) (h : w'.trace = w.trace ++ events) :
    answers w w' = events.filterMap Event.written := by
  rw [answers, h, List.drop_left]
  rfl

theorem answers_self (w : World) : answers w w = [] := answers_of_trace [] (List.append_nil _).symm

/-- The output of two runs in a row. -/
theorem answers_append {w t u : World} {events events' : List Event}
    (ht : t.trace = w.trace ++ events) (hu : u.trace = t.trace ++ events') :
    answers w u = answers w t ++ answers t u := by
  have hwu : u.trace = w.trace ++ (events ++ events') := by rw [hu, ht, List.append_assoc]
  rw [answers_of_trace _ hwu, answers_of_trace _ ht, answers_of_trace _ hu, List.filterMap_append]

theorem answers_received (w : World) (r : TLSPlaintext) : answers w (w.log (.received r)) = [] :=
  answers_of_trace [.received r] rfl

variable {S}

theorem Outcome.trace {ent : Entropy} {w w' : World} {r : TLSPlaintext} {rc : ℤ}
    (h : Outcome S ent w r rc w') : ∃ events, w'.trace = w.trace ++ events := by
  cases h with
  | answered x _ => exact ⟨_, x.trace_world⟩
  | rejected _ _ _ _ => exact ⟨_, rfl⟩
  | otherMessage _ _ _ => exact ⟨_, rfl⟩
  | early _ _ => exact ⟨_, List.append_assoc _ _ _⟩
  | ignored _ _ => exact ⟨_, rfl⟩
  | unknown _ _ _ _ => exact ⟨_, rfl⟩

/-- What a call writes: the two records of an answer, the alert, or nothing. -/
theorem Outcome.answers {ent : Entropy} {w w' : World} {r : TLSPlaintext} {rc : ℤ}
    (h : Outcome S ent w r rc w') :
    (rc = 0 ∧ ∃ x : Exchange S ent w r, w' = x.world) ∨
      (rc = -40 ∧ r.type = appliactionType ∧ w.state.state = .unencrypted ∧
        TLS13.answers w w' = [unexpectedMessage]) ∨
      (w'.state.state = w.state.state ∧ TLS13.answers w w' = []) := by
  cases h with
  | answered x _ => exact .inl ⟨rfl, x, rfl⟩
  | early htype hstate =>
    refine .inr (.inl ⟨rfl, htype, hstate, ?_⟩)
    exact answers_of_trace [.received r, .wrote unexpectedMessage] (List.append_assoc _ _ _)
  | rejected _ _ _ _ => exact .inr (.inr ⟨rfl, answers_of_trace [.received r] rfl⟩)
  | otherMessage _ _ _ => exact .inr (.inr ⟨rfl, answers_received _ _⟩)
  | ignored _ _ => exact .inr (.inr ⟨rfl, answers_received _ _⟩)
  | unknown _ _ _ _ => exact .inr (.inr ⟨rfl, answers_received _ _⟩)

variable (S)

/-! ### When protected records are written -/

/-- Nothing protected was written between `t` and `u`, or it was written from an
encrypted state: `send_null_EncryptedExtensions` ran last, after the handshake
and the derivation of the keys had written no protected record. -/
def SealsWhenEncrypted (t : World) (c : Call) (u : World) : Prop :=
  (∀ bs ∈ answers t u, ¬ IsProtected bs) ∨
    ∃ ch shaken keyed,
      clientHelloServerHelloHandshake S c.entropy
        ((t.log (.received c.record.toTLSPlaintext)).absorb c.record.fragment) ch =
          .ok (0, shaken) ∧
      deriveKeys S (shaken.setState { shaken.state with state := .encrypted }) = .ok keyed ∧
      keyed.state.state = .encrypted ∧
      (∀ bs ∈ answers t keyed, ¬ IsProtected bs) ∧
      sendNullEncryptedExtensions S c.entropy keyed = .ok (0, u)

variable {S}

theorem not_isProtected_plaintextRecord {type : UInt8} (h : type ≠ appliactionType)
    (fragment : Bytes) : ¬ IsProtected (Rfc.plaintextRecord type fragment) := by
  intro hp
  exact h (Option.some.inj hp)

theorem isProtected_sealRecord (content : Bytes) (type : UInt8) (padding : ℕ) (key : Block 32)
    (nonce : Block 12) : IsProtected (Rfc.sealRecord S content type padding key nonce) := rfl

/-- The only protected record of a call is the last thing it writes. -/
theorem Call.Step.sealsWhenEncrypted {t u : World} {c : Call} (h : Call.Step S t c u) :
    SealsWhenEncrypted S t c u := by
  rcases (mainStateMech_outcome S h).answers with ⟨-, x, rfl⟩ | ⟨-, -, -, hanswers⟩ |
    ⟨-, hanswers⟩
  · refine .inr ⟨x.clientHello, _, _, handshake_of_exchange S x, deriveKeys_eq S _, rfl, ?_,
      sendNullEncryptedExtensions_eq S rfl⟩
    have hone : answers t (((((t.log (.received c.record.toTLSPlaintext)).absorb
        c.record.fragment).answer x.sharedSecret x.reply).establish S)) =
          [Rfc.plaintextRecord handshakeType x.reply] :=
      answers_of_trace [.received _, .wrote _, .installed _]
        ((List.append_assoc _ _ _).trans (List.append_assoc _ _ _))
    intro bs hbs
    rw [hone] at hbs
    obtain rfl := List.mem_singleton.mp hbs
    exact not_isProtected_plaintextRecord (by decide) _
  · left
    intro bs hbs
    rw [hanswers] at hbs
    obtain rfl := List.mem_singleton.mp hbs
    exact not_isProtected_plaintextRecord (by decide) _
  · left
    intro bs hbs
    rw [hanswers] at hbs
    cases hbs

/-- A call leaves an encrypted state encrypted. -/
theorem Call.Step.encrypted {t u : World} {c : Call} (h : Call.Step S t c u)
    (he : t.state.state = .encrypted) : u.state.state = .encrypted := by
  rcases (mainStateMech_outcome S h).answers with ⟨-, x, rfl⟩ | ⟨-, -, hstate, -⟩ | ⟨hsame, -⟩
  · rfl
  · rw [he] at hstate
    cases hstate
  · rw [hsame]
    exact he

variable (S)

/-! ### The output of a run -/

/-- The pair that a call of the run wrote: the ServerHello of its exchange, and a
record that `encrypt_record` made with the server's write key of that exchange. -/
def IsAnswerPair (heap : Allocated) (calls : List Call) (p : Bytes × Bytes) : Prop :=
  ∃ before c after t u, calls = before ++ c :: after ∧
    Run (Call.Step S) (World.init heap) before t ∧ Call.Step S t c u ∧ answers t u = [p.1, p.2] ∧
    ∃ x : Exchange S c.entropy t c.record.toTLSPlaintext,
      let hash := S.hashSha256 (t.state.hashState.absorbed ++ c.record.fragment ++ x.reply)
      let key := Rfc.writeKey S (Rfc.serverHandshakeTrafficSecret S x.sharedSecret hash)
      p.1 = Rfc.plaintextRecord handshakeType x.reply ∧
      u.state.serverWriteKey = key ∧
      IsProtected p.2 ∧
      ∃ record nonce, encryptRecord S c.entropy.rand record key nonce = .ok p.2

/-- Pairs and nothing else, none of them before the state is encrypted. -/
def WritesPairs (heap : Allocated) (calls : List Call) (w : World) : Prop :=
  ∃ pairs, answers (World.init heap) w = flattenPairs pairs ∧
    (∀ p ∈ pairs, IsAnswerPair S heap calls p) ∧ (w.state.state = .unencrypted → pairs = [])

variable {S} {heap : Allocated} {calls : List Call} {t u : World} {c : Call}

theorem IsAnswerPair.snoc {p : Bytes × Bytes} (h : IsAnswerPair S heap calls p) :
    IsAnswerPair S heap (calls ++ [c]) p := by
  obtain ⟨before, d, after, t, u, rfl, h⟩ := h
  exact ⟨before, d, after ++ [c], t, u, by simp, h⟩

theorem isAnswerPair_of_exchange (hrun : Run (Call.Step S) (World.init heap) calls t)
    (x : Exchange S c.entropy t c.record.toTLSPlaintext) (hstep : Call.Step S t c x.world) :
    ∃ p, answers t x.world = [p.1, p.2] ∧ IsAnswerPair S heap (calls ++ [c]) p :=
  ⟨(_, _), x.answers_world, calls, c, [], t, x.world, rfl, hrun, hstep, x.answers_world, x, rfl, rfl,
    isProtected_sealRecord _ _ _ _ _, _, _, encryptRecord_nullEncryptedExtensions S _ _ _⟩

/-- The output of a run and of the call after it. -/
theorem answers_snoc (hstep : Call.Step S t c u) :
    answers (World.init heap) u = answers (World.init heap) t ++ answers t u := by
  obtain ⟨events, htrace⟩ := (mainStateMech_outcome S hstep).trace
  exact answers_append (List.nil_append _).symm htrace

/-- A call that writes nothing or an answer keeps the output a list of pairs. -/
theorem WritesPairs.snoc (h : WritesPairs S heap calls t)
    (hrun : Run (Call.Step S) (World.init heap) calls t) (hstep : Call.Step S t c u) :
    WritesPairs S heap (calls ++ [c]) u ∨
      (c.code = -40 ∧ answers (World.init heap) u = [unexpectedMessage]) := by
  obtain ⟨pairs, hpairs, hmem, hnone⟩ := h
  have hsnoc : answers (World.init heap) u = answers (World.init heap) t ++ answers t u :=
    answers_snoc hstep
  rw [hpairs] at hsnoc
  rcases (mainStateMech_outcome S hstep).answers with ⟨-, x, rfl⟩ | ⟨hcode, -, hstate, hanswers⟩ |
    ⟨hsame, hanswers⟩
  · obtain ⟨p, hp, hpair⟩ := isAnswerPair_of_exchange hrun x hstep
    refine .inl ⟨pairs ++ [p], ?_, ?_, fun h => by cases h⟩
    · rw [hsnoc, hp, flattenPairs, flattenPairs, List.flatMap_append]
      rfl
    · intro q hq
      rcases List.mem_append.mp hq with hq | hq
      · exact (hmem q hq).snoc
      · rw [List.mem_singleton.mp hq]
        exact hpair
  · rw [hnone hstate, hanswers] at hsnoc
    exact .inr ⟨hcode, hsnoc⟩
  · rw [hanswers, List.append_nil] at hsnoc
    refine .inl ⟨pairs, hsnoc, fun q hq => (hmem q hq).snoc, fun hu => hnone ?_⟩
    rw [← hsame]
    exact hu

theorem writesPairs_of_zero (hrun : Run (Call.Step S) (World.init heap) calls u)
    (hcodes : ∀ c ∈ calls, c.code = 0) : WritesPairs S heap calls u := by
  induction hrun with
  | nil => exact ⟨[], answers_self _, by simp, fun _ => rfl⟩
  | @snoc calls c t u hrun hstep ih =>
    have hbefore := ih fun a ha => hcodes a (List.mem_append_left _ ha)
    rcases hbefore.snoc hrun hstep with h | ⟨hcode, -⟩
    · exact h
    · rw [hcodes c (by simp)] at hcode
      exact absurd hcode (by decide)

/-- In every run of the loop the output is a list of pairs of a ServerHello and a
record protected under the key of its handshake, or one alert; protected records
are written in the encrypted state, which is never left. -/
theorem output_of_run {inputs : List Input} {w : World}
    (h : serveAll S (World.init heap) inputs = .ok (calls, w)) :
    (WritesPairs S heap calls w ∨ answers (World.init heap) w = [unexpectedMessage]) ∧
      Run (fun t c u => Call.Step S t c u ∧ SealsWhenEncrypted S t c u ∧
        (t.state.state = .encrypted → u.state.state = .encrypted)) (World.init heap) calls w := by
  obtain ⟨hrun, hcodes⟩ := serveAll_run h
  refine ⟨?_, hrun.mono fun hstep => ⟨hstep, hstep.sealsWhenEncrypted, hstep.encrypted⟩⟩
  cases hrun with
  | nil => exact .inl (writesPairs_of_zero .nil (by simp))
  | @snoc calls c t _ hrun hstep =>
    rw [List.dropLast_concat] at hcodes
    rcases (writesPairs_of_zero hrun hcodes).snoc hrun hstep with hpairs | ⟨-, halert⟩
    · exact .inl hpairs
    · exact .inr halert

/-- The loop on the sample ClientHello alone. -/
theorem output_of_run_sample :
    ∃ calls w, serveAll Sodium.reference (World.init sampleHeap) [⟨sampleEntropy, sampleRecord⟩] =
      .ok (calls, w) ∧ w.state.state = .encrypted ∧
        (WritesPairs Sodium.reference sampleHeap calls w ∨
          answers (World.init sampleHeap) w = [unexpectedMessage]) := by
  obtain ⟨x, hcall⟩ := mainStateMech_sample ⟨sampleHeap, [], .nil⟩ hello_sampleRecord
  have hloop := serveAll_cons_of_zero (i := ⟨sampleEntropy, sampleRecord⟩) [] hcall
  exact ⟨_, _, hloop, rfl, (output_of_run hloop).1⟩

end TLS13
