import TLS13.Output
import TLS13.RecordStream

/-! The process behind one socket: the loop of `main.c` with the state it leaves
and the way it ends. What it does is a fold over the records that arrive, and
these are the front of the one way to split the stream. So the schedule and the
bytes to come can cut a run short, and never change what it has done. -/

namespace TLS13

open Lib

/-! ### The records of a stream -/

/-- What `read_record` was given is the encoding of what it returned. -/
theorem encode_of_reads {bs : Bytes} {r : Record} (h : Reader.Reads recordReader bs r) :
    bs = r.encode := by
  cases h with
  | ask type h =>
    cases h with
    | ask version h =>
      cases h with
      | ask length h =>
        cases h with
        | ask buf h =>
          cases h
          obtain ⟨t, htype⟩ := List.length_eq_one_iff.mp type.length_val
          obtain ⟨b0, b1, hlength⟩ := List.length_eq_two.mp length.length_val
          have hbe : be 2 (htons (uint16Of length.val)).toNat = length.val := by
            rw [hlength, show uint16Of [b0, b1] = b0.toUInt16 ||| (b1.toUInt16 <<< 8) from rfl,
              htons_load]
            exact be_value [b0, b1]
          simp only [Record.encode, hbe, htype, List.getD_cons_zero, List.append_nil]

/-- A record that was read stood in front of what is left, whatever the schedule. -/
theorem pending_of_readRecord {socket socket' : ByteStream} {r : Record}
    (h : readRecord socket = .ok (r, socket')) :
    socket.pending = r.encode ++ socket'.pending := by
  obtain ⟨bs, hreads, hp⟩ := Reader.Reads.of_run (run_of_readRecord h)
  rw [hp, encode_of_reads hreads]

/-- The records that are read until a read fails. -/
def arrivals (socket : ByteStream) : List Record := (readAll socket).filterMap Except.toOption

theorem arrivals_error {socket : ByteStream} {rc : ℤ} (h : readRecord socket = .error rc) :
    arrivals socket = [] := by
  rw [arrivals, readAll_error h]
  rfl

theorem arrivals_ok {socket socket' : ByteStream} {r : Record}
    (h : readRecord socket = .ok (r, socket')) : arrivals socket = r :: arrivals socket' := by
  rw [arrivals, readAll_ok h]
  rfl

/-- A schedule and the end of a stream cut the records short, and change none. -/
theorem arrivals_prefix {a b : ByteStream} (h : a.pending <+: b.pending) (hb : b.Delivers) :
    arrivals a <+: arrivals b := by
  induction hn : a.pending.length using Nat.strong_induction_on generalizing a b with
  | h n ih =>
    subst hn
    cases ha : readRecord a with
    | error rc =>
      rw [arrivals_error ha]
      exact List.nil_prefix
    | ok v =>
      obtain ⟨r, a'⟩ := v
      obtain ⟨more, hmore⟩ := h
      have hp : b.pending = r.encode ++ (a'.pending ++ more) := by
        rw [← hmore, pending_of_readRecord ha, List.append_assoc]
      obtain ⟨b', hp', hb', hread⟩ := readRecord_encode hp hb
      rw [arrivals_ok ha, arrivals_ok hread, List.prefix_cons_inj]
      exact ih _ (pending_length_readRecord ha) ⟨more, hp'.symm⟩ hb' rfl

/-- The records that arrive are the front of the stream. -/
theorem arrivals_encode (socket : ByteStream) :
    (arrivals socket).flatMap Record.encode <+: socket.pending := by
  induction hn : socket.pending.length using Nat.strong_induction_on generalizing socket with
  | h n ih =>
    subst hn
    cases hread : readRecord socket with
    | error rc =>
      rw [arrivals_error hread]
      exact List.nil_prefix
    | ok v =>
      obtain ⟨r, socket'⟩ := v
      rw [arrivals_ok hread, pending_of_readRecord hread, List.flatMap_cons,
        List.prefix_append_right_inj]
      exact ih _ (pending_length_readRecord hread) socket' rfl

/-- The records of a stream that is delivered are the records that arrive. -/
theorem arrivals_records (recs : List Record) {socket : ByteStream}
    (hp : socket.pending = recs.flatMap Record.encode) (hd : socket.Delivers) :
    arrivals socket = recs := by
  obtain ⟨socket', hrest, -, hall⟩ := readAll_records recs (hp.trans (List.append_nil _).symm) hd
  rw [arrivals, hall, readAll_error (readRecord_nil hrest), List.filterMap_append,
    List.filterMap_map]
  show recs.filterMap some ++ [] = recs
  rw [List.append_nil, List.filterMap_some]

/-! ### The loop -/

/-- How the process ends: a read that is not full, a code, or a fault. -/
inductive Ending
  | readFailed
  | refused (rc : ℤ)
  | faulted (e : Fault)
  deriving DecidableEq

variable (S : Sodium)

/-- One turn of the loop on a record that was read. A call that faults takes the
process down with the state it was given. -/
def turn (st : World × (ℕ → Entropy)) (r : Record) :
    Except (World × Ending) (World × (ℕ → Entropy)) :=
  match mainStateMech S (st.2 0) st.1 r.toTLSPlaintext with
  | .ok (rc, w) => if rc ≠ 0 then .error (w, .refused rc) else .ok (w, fun i => st.2 (i + 1))
  | .error e => .error (st.1, .faulted e)

/-- The loop of `main`, with the state it leaves. -/
def mainLoop (st : World × (ℕ → Entropy)) (socket : ByteStream) : World × Ending :=
  match _h : readRecord socket with
  | .error _ => (st.1, .readFailed)
  | .ok (r, socket') =>
    match turn S st r with
    | .error last => last
    | .ok st' => mainLoop st' socket'
termination_by socket.pending.length
decreasing_by exact pending_length_readRecord _h

/-- The turns on records that are there. -/
def serveRecords (st : World × (ℕ → Entropy)) (recs : List Record) :
    Except (World × Ending) (World × (ℕ → Entropy)) :=
  recs.foldlM (turn S) st

/-- The end of the records is the end of the loop. -/
def closed : Except (World × Ending) (World × (ℕ → Entropy)) → World × Ending
  | .error last => last
  | .ok st => (st.1, .readFailed)

variable {S}

theorem mainLoop_error {st : World × (ℕ → Entropy)} {socket : ByteStream} {rc : ℤ}
    (h : readRecord socket = .error rc) : mainLoop S st socket = (st.1, .readFailed) := by
  rw [mainLoop]
  split <;> simp_all

theorem mainLoop_ok {st : World × (ℕ → Entropy)} {socket socket' : ByteStream} {r : Record}
    (h : readRecord socket = .ok (r, socket')) :
    mainLoop S st socket =
      match turn S st r with
      | .error last => last
      | .ok st' => mainLoop S st' socket' := by
  rw [mainLoop]
  split
  · simp_all
  · rename_i r' s' h'
    obtain ⟨rfl, rfl⟩ : r' = r ∧ s' = socket' := by simpa [h'] using h
    rfl

theorem serveRecords_of_ok {st st' : World × (ℕ → Entropy)} {r : Record} (h : turn S st r = .ok st')
    (recs : List Record) : serveRecords S st (r :: recs) = serveRecords S st' recs := by
  rw [serveRecords, List.foldlM_cons, h]
  rfl

theorem serveRecords_of_error {st : World × (ℕ → Entropy)} {r : Record} {last : World × Ending}
    (h : turn S st r = .error last) (recs : List Record) :
    serveRecords S st (r :: recs) = .error last := by
  rw [serveRecords, List.foldlM_cons, h]
  rfl

/-- The loop is the fold over the records that arrive. -/
theorem mainLoop_eq_serveRecords (st : World × (ℕ → Entropy)) (socket : ByteStream) :
    mainLoop S st socket = closed (serveRecords S st (arrivals socket)) := by
  induction hn : socket.pending.length using Nat.strong_induction_on generalizing st socket with
  | h n ih =>
    subst hn
    cases hread : readRecord socket with
    | error rc =>
      rw [mainLoop_error hread, arrivals_error hread]
      rfl
    | ok v =>
      obtain ⟨r, socket'⟩ := v
      rw [mainLoop_ok hread, arrivals_ok hread]
      cases hturn : turn S st r with
      | error last =>
        rw [serveRecords_of_error hturn]
        rfl
      | ok st' =>
        rw [serveRecords_of_ok hturn]
        exact ih _ (pending_length_readRecord hread) st' socket' rfl

theorem turn_of_zero {st : World × (ℕ → Entropy)} {r : Record} {w : World}
    (h : mainStateMech S (st.2 0) st.1 r.toTLSPlaintext = .ok (0, w)) :
    turn S st r = .ok (w, fun i => st.2 (i + 1)) := by
  simp only [turn, h, ne_eq, not_true_eq_false, if_false]

theorem turn_of_code {st : World × (ℕ → Entropy)} {r : Record} {rc : ℤ} {w : World} (hrc : rc ≠ 0)
    (h : mainStateMech S (st.2 0) st.1 r.toTLSPlaintext = .ok (rc, w)) :
    turn S st r = .error (w, .refused rc) := by
  simp only [turn, h, if_pos hrc]

theorem turn_of_fault {st : World × (ℕ → Entropy)} {r : Record} {e : Fault}
    (h : mainStateMech S (st.2 0) st.1 r.toTLSPlaintext = .error e) :
    turn S st r = .error (st.1, .faulted e) := by
  simp only [turn, h]

/-! ### What was done stays done -/

/-- A turn adds to the trace, whether or not the loop goes on. -/
theorem turn_trace (st : World × (ℕ → Entropy)) (r : Record) :
    st.1.trace <+: (closed (turn S st r)).1.trace := by
  simp only [turn]
  split
  · rename_i rc w hcall
    obtain ⟨events, htrace⟩ := (mainStateMech_outcome S hcall).trace
    split <;> exact ⟨events, htrace.symm⟩
  · exact List.prefix_rfl

theorem serveRecords_trace (recs : List Record) (st : World × (ℕ → Entropy)) :
    st.1.trace <+: (closed (serveRecords S st recs)).1.trace := by
  induction recs generalizing st with
  | nil => exact List.prefix_rfl
  | cons r recs ih =>
    have hturn := turn_trace (S := S) st r
    cases h : turn S st r with
    | error last =>
      rw [h] at hturn
      rw [serveRecords_of_error h]
      exact hturn
    | ok st' =>
      rw [h] at hturn
      rw [serveRecords_of_ok h]
      exact hturn.trans (ih st')

/-- With more records the loop goes on from where it was, or had ended before. -/
theorem serveRecords_append (st : World × (ℕ → Entropy)) (recs more : List Record) :
    serveRecords S st (recs ++ more) = serveRecords S st recs >>= (serveRecords S · more) :=
  List.foldlM_append

/-- Whatever the schedule and whatever follows in the stream, the events of a run
are the first ones of the run that is given everything at once; and a run that
ends by a code or a fault is that run. -/
theorem mainLoop_cut_short (S : Sodium) (heap : Allocated) (entropy : ℕ → Entropy)
    (stream more : Bytes) (delivery : ℕ → ℕ) :
    (mainLoop S (World.init heap, entropy) ⟨stream, delivery⟩).1.trace <+:
        (mainLoop S (World.init heap, entropy) (ByteStream.whole (stream ++ more))).1.trace ∧
      ((mainLoop S (World.init heap, entropy) ⟨stream, delivery⟩).2 ≠ .readFailed →
        mainLoop S (World.init heap, entropy) ⟨stream, delivery⟩ =
          mainLoop S (World.init heap, entropy) (ByteStream.whole (stream ++ more))) := by
  obtain ⟨rest, hrest⟩ : arrivals ⟨stream, delivery⟩ <+:
      arrivals (ByteStream.whole (stream ++ more)) :=
    arrivals_prefix (List.prefix_append stream more) (ByteStream.delivers_whole _)
  rw [mainLoop_eq_serveRecords, mainLoop_eq_serveRecords, ← hrest, serveRecords_append]
  cases h : serveRecords S (World.init heap, entropy) (arrivals ⟨stream, delivery⟩) with
  | error last => exact ⟨List.prefix_rfl, fun _ => rfl⟩
  | ok st => exact ⟨serveRecords_trace rest st, fun hne => absurd rfl hne⟩

end TLS13
