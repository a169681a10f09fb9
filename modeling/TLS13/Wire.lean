import TLS13.Refinement

/-! What the process writes, on the other side of the wire. Whatever it was sent, its
output is records of the protocol one behind the other, and `read_record` at the other
end gets back just those, under every delivery. -/

namespace TLS13

open Lib

variable {S : Sodium}

/-- A record as the protocol has it on the wire. -/
structure Record.OnWire (r : Record) : Prop where
  type : r.type ∈ [alertType, handshakeType, appliactionType]
  version : r.legacyRecordVersion = [0x03, 0x03]
  length : r.length.toNat ≤ 2 ^ 14

/-- The byte strings are records on the wire. -/
def AreRecords (bss : List Bytes) : Prop :=
  ∃ recs : List Record, recs.map Record.encode = bss ∧ ∀ r ∈ recs, r.OnWire

theorem areRecords_nil : AreRecords [] := ⟨[], rfl, by simp⟩

theorem AreRecords.append {bss bss' : List Bytes} (h : AreRecords bss) (h' : AreRecords bss') :
    AreRecords (bss ++ bss') := by
  obtain ⟨recs, rfl, hrecs⟩ := h
  obtain ⟨recs', rfl, hrecs'⟩ := h'
  refine ⟨recs ++ recs', List.map_append, fun r hr => ?_⟩
  rcases List.mem_append.mp hr with hr | hr
  · exact hrecs r hr
  · exact hrecs' r hr

theorem areRecords_plaintextRecord {type : UInt8} {fragment : Bytes}
    (ht : type ∈ [alertType, handshakeType, appliactionType]) (h : fragment.length ≤ 2 ^ 14) :
    AreRecords [Rfc.plaintextRecord type fragment] := by
  have hlt : fragment.length < 256 ^ 2 := by omega
  refine ⟨[.ofFragment type fragment hlt], by rw [List.map_singleton, encode_ofFragment], ?_⟩
  intro r hr
  obtain rfl := List.mem_singleton.mp hr
  exact ⟨ht, rfl, (toNat_ofNat_uint16 hlt).trans_le h⟩

/-- An answer is two records, each within the limit. -/
theorem Exchange.areRecords_answers {ent : Entropy} {w : World} {r : TLSPlaintext}
    (x : Exchange S ent w r) : AreRecords (answers w x.world) := by
  have hid := x.clientHello.length_sessionId_lt
  have hreply : x.reply.length ≤ 2 ^ 14 := by
    rw [Exchange.reply, length_serverHelloMessage]
    omega
  have hpad : ent.rand % 101 < 101 := Nat.mod_lt _ (by norm_num)
  have hnull : nullEncryptedExtensions.length = 6 := rfl
  rw [x.answers_world]
  refine (areRecords_plaintextRecord (by decide) hreply).append
    (areRecords_plaintextRecord (by decide) ?_)
  rw [Block.length_val, Rfc.length_innerPlaintext, hnull]
  omega

/-- What one turn writes is records. -/
theorem areRecords_step {w w' : World} {i : Input} {answer : ℤ × List Bytes}
    (h : (codeMachine S).step w i = .ok (w', answer)) : AreRecords answer.2 := by
  cases hcall : mainStateMech S i.entropy w i.record.toTLSPlaintext with
  | error e => simp [codeMachine, hcall, Except.map] at h
  | ok v =>
    obtain ⟨rc, u⟩ := v
    simp only [codeMachine, hcall, Except.map, Except.ok.injEq, Prod.mk.injEq] at h
    obtain ⟨rfl, rfl⟩ := h
    rcases (mainStateMech_outcome S hcall).answers with ⟨-, x, rfl⟩ | ⟨-, -, -, hanswers⟩ |
      ⟨-, hanswers⟩
    · exact x.areRecords_answers
    · rw [hanswers]
      exact areRecords_plaintextRecord (by decide) (by decide)
    · rw [hanswers]
      exact areRecords_nil

theorem areRecords_flatMap {turns : List (ℤ × List Bytes)} (h : ∀ turn ∈ turns, AreRecords turn.2) :
    AreRecords (turns.flatMap Prod.snd) := by
  induction turns with
  | nil => exact areRecords_nil
  | cons turn turns ih =>
    rw [List.flatMap_cons]
    exact (h turn List.mem_cons_self).append (ih fun t ht => h t (List.mem_cons_of_mem _ ht))

/-- Whatever bytes the process is sent, and however they are delivered to it, a peer that
is delivered what it wrote reads the records that it wrote, whole and in order, and
they are records of the protocol. -/
theorem output_readable (S : Sodium) (heap : Allocated) (entropy : ℕ → Entropy)
    (socket : ByteStream) {peer : ByteStream}
    (hp : peer.pending = output (mainLoop S (World.init heap, entropy) socket).1.trace)
    (hd : peer.Delivers) :
    (arrivals peer).map Record.encode =
        answers (World.init heap) (mainLoop S (World.init heap, entropy) socket).1 ∧
      ∀ r ∈ arrivals peer, r.OnWire := by
  obtain ⟨_, hloop, htrace, hout⟩ := serveRecords_eq_run (S := S) (arrivals socket)
    (World.init heap) entropy
  have hrecords := areRecords_flatMap ((codeMachine S).forall_answers areRecords_step
    (World.init heap) (inputs entropy (arrivals socket)))
  rw [mainLoop_eq_serveRecords, hloop] at hp ⊢
  rw [← hout] at hrecords
  obtain ⟨recs, hencode, hwire⟩ := hrecords
  have harrive : arrivals peer = recs := by
    refine arrivals_records recs ?_ hd
    rw [hp, List.flatMap_def, hencode, answers_of_trace _ (List.nil_append _).symm]
    rfl
  rw [harrive]
  exact ⟨hencode, hwire⟩

/-- What is written for the sample ClientHello, delivered at once. -/
theorem output_readable_sample :
    ∃ peer w, mainLoop Sodium.reference (World.init sampleHeap, fun _ => sampleEntropy)
        (ByteStream.whole ([sampleCcs, sampleRecord].flatMap Record.encode)) = (w, .readFailed) ∧
      peer.pending = output w.trace ∧
        (arrivals peer).map Record.encode = answers (World.init sampleHeap) w := by
  obtain ⟨st, hserve⟩ := serveRecords_sample
  have harrive : arrivals (ByteStream.whole ([sampleCcs, sampleRecord].flatMap Record.encode)) =
      [sampleCcs, sampleRecord] := arrivals_records _ rfl (ByteStream.delivers_whole _)
  have hloop : mainLoop Sodium.reference (World.init sampleHeap, fun _ => sampleEntropy)
      (ByteStream.whole ([sampleCcs, sampleRecord].flatMap Record.encode)) =
        (st.1, .readFailed) := by
    rw [mainLoop_eq_serveRecords, harrive, hserve]
    rfl
  have hread := output_readable Sodium.reference sampleHeap (fun _ => sampleEntropy)
    (ByteStream.whole ([sampleCcs, sampleRecord].flatMap Record.encode)) rfl
    (ByteStream.delivers_whole _)
  rw [hloop] at hread
  exact ⟨_, _, hloop, rfl, hread.1⟩

end TLS13
