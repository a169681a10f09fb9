import TLS13.Hello

/-! The running hash and the messages of the connection. Every answer absorbs the
whole fragment it received and the ServerHello, and never the EncryptedExtensions
inside the record it seals, so the hash falls behind the transcript by one
message an answer; and what a fragment holds after its message is absorbed too. -/

namespace TLS13

open Lib

variable (S : Sodium)

/-- The handshake bytes that an event carries, protected or not. -/
def Event.handshakeBytes : Event → Bytes
  | .received r => if r.type = handshakeType then r.fragment else []
  | .wrote bs => if bs.head? = some handshakeType then bs.drop 5 else []
  | .sealed r _ _ => if r.type = handshakeType then r.fragment else []
  | .installed _ => []

/-- The handshake messages received and sent, in order. -/
def transcript (trace : List Event) : Bytes := trace.flatMap Event.handshakeBytes

/-- The running hash has absorbed the transcript. -/
def TranscriptComplete (w : World) : Prop := w.state.hashState.absorbed = transcript w.trace

theorem transcript_append (trace events : List Event) :
    transcript (trace ++ events) = transcript trace ++ transcript events := List.flatMap_append

theorem transcript_log (w : World) (e : Event) :
    transcript (w.log e).trace = transcript w.trace ++ e.handshakeBytes := by
  rw [World.log, transcript_append]
  simp [transcript]

theorem handshakeBytes_received {r : TLSPlaintext} (h : r.type ≠ handshakeType) :
    (Event.received r).handshakeBytes = [] := if_neg h

theorem handshakeBytes_plaintextRecord (m : Bytes) :
    (Event.wrote (Rfc.plaintextRecord handshakeType m)).handshakeBytes = m := by
  have hhead : (Rfc.plaintextRecord handshakeType m).head? = some handshakeType := rfl
  rw [Event.handshakeBytes, if_pos hhead, Rfc.drop_plaintextRecord]

theorem transcript_answered {ent : Entropy} {w : World} {r : TLSPlaintext} (x : Exchange S ent w r)
    (hr : r.type = handshakeType) :
    transcript x.world.trace =
      transcript w.trace ++ r.fragment ++ x.reply ++ nullEncryptedExtensions := by
  have hreceived : (Event.received r).handshakeBytes = r.fragment := if_pos hr
  have hprotected : (Event.wrote (Rfc.sealRecord S nullEncryptedExtensions handshakeType
      (ent.rand % 101) x.world.state.serverWriteKey
        (Rfc.recordNonce x.world.state.serverWriteIv 0))).handshakeBytes = [] := rfl
  rw [x.trace_world, transcript_append]
  simp only [transcript, List.flatMap_cons, List.flatMap_nil, hreceived,
    handshakeBytes_plaintextRecord, hprotected]
  simp [Event.handshakeBytes]

/-- A record of another type adds nothing to the hash or to the transcript. -/
theorem TranscriptComplete.step {ent : Entropy} {w w' : World} {r : TLSPlaintext} {rc : ℤ}
    (hw : TranscriptComplete w) (hr : r.type ≠ handshakeType) (h : Outcome S ent w r rc w') :
    TranscriptComplete w' := by
  have hlog : TranscriptComplete (w.log (.received r)) := by
    rw [TranscriptComplete, transcript_log, handshakeBytes_received hr, List.append_nil]
    exact hw
  cases h with
  | answered _ htype => exact absurd htype hr
  | rejected _ htype _ _ => exact absurd htype hr
  | otherMessage htype _ _ => exact absurd htype hr
  | early _ _ =>
    rw [TranscriptComplete, transcript_log]
    exact hlog.trans (List.append_nil _).symm
  | ignored _ _ => exact hlog
  | unknown _ _ _ _ => exact hlog

/-- The calls of a run that were given a handshake record. -/
def handshakeCalls (calls : List Call) : ℕ := calls.countP fun c => c.record.type = handshakeType

/-- In a run of calls that return 0 the transcript is longer than what was
absorbed by an EncryptedExtensions message for each handshake record. -/
theorem length_transcript {heap : Allocated} {calls : List Call} {w : World}
    (hrun : Run (Call.Step S) (World.init heap) calls w) (hcodes : ∀ c ∈ calls, c.code = 0) :
    (transcript w.trace).length =
      w.state.hashState.absorbed.length + 6 * handshakeCalls calls := by
  induction hrun with
  | nil => rfl
  | @snoc calls c t u hrun hstep ih =>
    have hlen := ih fun a ha => hcodes a (List.mem_append_left _ ha)
    have hcode : c.code = 0 := hcodes c (by simp)
    have hout := mainStateMech_outcome S hstep
    rw [hcode] at hout
    have hcount : handshakeCalls (calls ++ [c]) =
        handshakeCalls calls + if c.record.type = handshakeType then 1 else 0 := by
      simp [handshakeCalls, List.countP_append, List.countP_cons]
    rcases hout.of_zero with ⟨x, htype, rfl⟩ | ⟨htype, rfl⟩
    · have hsize : nullEncryptedExtensions.length = 6 := rfl
      rw [transcript_answered S x htype, x.absorbed_world, hcount, if_pos htype]
      simp only [List.length_append, hlen, hsize]
      omega
    · rw [transcript_log, handshakeBytes_received htype, List.append_nil, hlen, hcount, if_neg htype]
      rfl

theorem transcript_complete_of_no_handshake {heap : Allocated} {calls : List Call} {w : World}
    (hrun : Run (Call.Step S) (World.init heap) calls w)
    (hcalls : ∀ c ∈ calls, c.record.type ≠ handshakeType) : TranscriptComplete w := by
  refine (hrun.restrict hcalls).invariant ?_ rfl
  intro a c b ha hstep
  exact ha.step S hstep.2 (mainStateMech_outcome S hstep.1)

/-- Without handshake records the hash is the transcript's after any calls; where
every call returned 0, as in the loop of `main`, it is only then. -/
theorem transcript_complete_iff {heap : Allocated} {calls : List Call} {w : World}
    (hrun : Run (Call.Step S) (World.init heap) calls w) :
    ((∀ c ∈ calls, c.record.type ≠ handshakeType) → TranscriptComplete w) ∧
      ((∀ c ∈ calls, c.code = 0) →
        (TranscriptComplete w ↔ ∀ c ∈ calls, c.record.type ≠ handshakeType)) := by
  refine ⟨transcript_complete_of_no_handshake S hrun, fun hcodes => ⟨?_, ?_⟩⟩
  · intro hcomplete
    have hlen := length_transcript S hrun hcodes
    rw [← hcomplete] at hlen
    have hzero : handshakeCalls calls = 0 := by omega
    simpa [handshakeCalls, List.countP_eq_zero] using hzero
  · exact transcript_complete_of_no_handshake S hrun

/-- The sample ClientHello is answered with code 0, and is a handshake record. -/
theorem transcript_complete_sample :
    ∃ calls w, Run (Call.Step Sodium.reference) (World.init sampleHeap) calls w ∧
      ¬ TranscriptComplete w := by
  obtain ⟨x, hrun⟩ := run_sample
  refine ⟨_, _, hrun, fun hcomplete => ?_⟩
  have hnone := ((transcript_complete_iff _ hrun).2 (by simp)).mp hcomplete
  exact hnone _ (List.mem_singleton.mpr rfl) rfl

/-- After it the EncryptedExtensions was sent and not absorbed. -/
theorem not_transcriptComplete_sample :
    ¬ ∀ heap calls c w, Run (Call.Step Sodium.reference) (World.init heap) (calls ++ [c]) w →
      c.code = 0 → TranscriptComplete w := by
  intro h
  obtain ⟨x, hrun⟩ := run_sample
  have hlen := length_transcript _ hrun (by simp)
  rw [← h sampleHeap [] _ _ hrun rfl] at hlen
  have hcount : handshakeCalls [⟨sampleEntropy, sampleRecord, 0⟩] = 1 := rfl
  omega

/-! ### What is absorbed of one record -/

/-- Of the record answered between the two worlds, exactly `m` was absorbed, and
after it the ServerHello that was written. -/
def AbsorbsExactly (w w' : World) (m : Bytes) : Prop :=
  ∃ sh rest, answers w w' = Rfc.plaintextRecord handshakeType sh :: rest ∧
    w'.state.hashState.absorbed = w.state.hashState.absorbed ++ m ++ sh

theorem plaintextRecord_inj {type : UInt8} {m m' : Bytes}
    (h : Rfc.plaintextRecord type m = Rfc.plaintextRecord type m') : m = m' := by
  rw [← Rfc.drop_plaintextRecord type m, h, Rfc.drop_plaintextRecord]

theorem Exchange.absorbsExactly_iff {ent : Entropy} {w : World} {r : TLSPlaintext}
    (x : Exchange S ent w r) {m rest : Bytes} (hfragment : r.fragment = m ++ rest) :
    AbsorbsExactly w x.world m ↔ rest = [] := by
  rw [AbsorbsExactly, x.answers_world, x.absorbed_world]
  constructor
  · rintro ⟨sh, tail, hsh, habs⟩
    obtain rfl : x.reply = sh := plaintextRecord_inj (List.cons.inj hsh).1
    have heq := List.append_cancel_left (List.append_cancel_right habs)
    rw [hfragment] at heq
    simpa using heq
  · rintro rfl
    refine ⟨x.reply, _, rfl, ?_⟩
    rw [hfragment, List.append_nil]

/-- A record that is answered has its ClientHello and nothing else absorbed
exactly when its fragment ends with the message. -/
theorem absorbs_message_iff {ent : Entropy} {w w' : World} {r : Record} {body rest : Bytes}
    (hr : r.type = handshakeType)
    (hfragment : r.fragment = Rfc.handshakeMessage clientHelloType body ++ rest)
    (hcall : mainStateMech S ent w r.toTLSPlaintext = .ok (0, w')) :
    AbsorbsExactly w w' (Rfc.handshakeMessage clientHelloType body) ↔
      r.fragment.length = 4 + body.length := by
  have hlen : r.fragment.length = 4 + body.length ↔ rest = [] := by
    rw [hfragment, List.length_append, Rfc.length_handshakeMessage, ← List.length_eq_zero_iff]
    omega
  rcases (mainStateMech_outcome S hcall).of_zero with ⟨x, -, rfl⟩ | ⟨htype, -⟩
  · rw [hlen]
    exact x.absorbsExactly_iff S hfragment
  · exact absurd hr htype

/-- The sample ClientHello fills its record and is answered. -/
theorem absorbs_message_sample :
    ∃ w', mainStateMech Sodium.reference sampleEntropy (World.init sampleHeap)
        sampleRecord.toTLSPlaintext = .ok (0, w') ∧
      AbsorbsExactly (World.init sampleHeap) w'
        (Rfc.handshakeMessage clientHelloType sampleHello.encode) := by
  obtain ⟨x, hcall⟩ := mainStateMech_sample ⟨sampleHeap, [], .nil⟩ hello_sampleRecord
  have hlen : sampleRecord.fragment.length = 4 + sampleHello.encode.length :=
    Rfc.length_handshakeMessage clientHelloType sampleHello.encode
  exact ⟨_, hcall, (absorbs_message_iff _ rfl (List.append_nil _).symm hcall).mpr hlen⟩

/-- The sample ClientHello with one byte behind it. -/
def coalescedRecord : Record :=
  Record.ofFragment handshakeType
    (Rfc.handshakeMessage clientHelloType sampleHello.encode ++ [0]) (by
      rw [List.length_append, Rfc.length_handshakeMessage, sampleHello, length_minimalHello,
        samplePoint.length_val]
      decide)

/-- The byte behind the message is absorbed with it. -/
theorem not_absorbsExactly_coalesced :
    ∃ w', mainStateMech Sodium.reference sampleEntropy (World.init sampleHeap)
        coalescedRecord.toTLSPlaintext = .ok (0, w') ∧
      ¬ AbsorbsExactly (World.init sampleHeap) w'
        (Rfc.handshakeMessage clientHelloType sampleHello.encode) := by
  obtain ⟨x, hcall⟩ := mainStateMech_sample ⟨sampleHeap, [], .nil⟩
    (⟨[0], rfl, rfl⟩ : Hello sampleHello coalescedRecord)
  refine ⟨_, hcall, fun habs => ?_⟩
  have hnil := (x.absorbsExactly_iff Sodium.reference rfl).mp habs
  cases hnil

end TLS13
