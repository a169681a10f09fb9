import TLS13.Hello

/-! The loop of `main.c`, which reads a record, hands it to the state machine and
stops at the first nonzero code. What the reads return depends on the schedule
that delivers the stream only through the first request that the schedule cuts. -/

namespace TLS13

open Lib

section Loop

variable {σ : Type} (handle : σ → Record → Option σ)

/-- The results of the calls to `read_record`. The handler stops the loop with `none`. -/
def readLoop (st : σ) (socket : ByteStream) : List (Except ℤ Record) :=
  match _h : readRecord socket with
  | .error rc => [.error rc]
  | .ok (r, socket') =>
    match handle st r with
    | none => [.ok r]
    | some st' => .ok r :: readLoop st' socket'
termination_by socket.pending.length
decreasing_by exact pending_length_readRecord _h

/-- The record and the read of the first request that falls short although the
stream holds the bytes. -/
def shortAt (st : σ) (socket : ByteStream) : Option (ℕ × ℕ) :=
  match recordReader.firstCut socket with
  | some i => some (0, i)
  | none =>
    match _h : recordReader.run socket with
    | .error _ => none
    | .ok (r, socket') =>
      match handle st r with
      | none => none
      | some st' => (shortAt st' socket').map fun at' => (at'.1 + 1, at'.2)
termination_by socket.pending.length
decreasing_by exact Reader.pending_length_run_ask (by norm_num) _h

variable {handle}

theorem readLoop_error {st : σ} {socket : ByteStream} {rc : ℤ} (h : readRecord socket = .error rc) :
    readLoop handle st socket = [.error rc] := by
  rw [readLoop]
  split <;> simp_all

theorem readLoop_ok {st : σ} {socket socket' : ByteStream} {r : Record}
    (h : readRecord socket = .ok (r, socket')) :
    readLoop handle st socket = .ok r ::
      match handle st r with
      | none => []
      | some st' => readLoop handle st' socket' := by
  rw [readLoop]
  split
  · simp_all
  · rename_i r' s' h'
    obtain ⟨rfl, rfl⟩ : r' = r ∧ s' = socket' := by simpa [h'] using h
    cases handle st r' <;> rfl

theorem shortAt_some {st : σ} {socket : ByteStream} {i : ℕ}
    (h : recordReader.firstCut socket = some i) : shortAt handle st socket = some (0, i) := by
  rw [shortAt]
  split <;> simp_all

theorem shortAt_error {st : σ} {socket : ByteStream} {rc : ℤ}
    (hcut : recordReader.firstCut socket = none) (h : readRecord socket = .error rc) :
    shortAt handle st socket = none := by
  rw [shortAt]
  split
  · simp_all
  · split
    · rfl
    · rename_i r socket' hrun
      rw [readRecord_eq_run, hrun] at h
      cases h

theorem shortAt_ok {st : σ} {socket socket' : ByteStream} {r : Record}
    (hcut : recordReader.firstCut socket = none) (h : readRecord socket = .ok (r, socket')) :
    shortAt handle st socket =
      match handle st r with
      | none => none
      | some st' => (shortAt handle st' socket').map fun at' => (at'.1 + 1, at'.2) := by
  rw [shortAt]
  split
  · simp_all
  · have hrun := run_of_readRecord h
    split
    · simp_all
    · rename_i r' s' h'
      obtain ⟨rfl, rfl⟩ : r' = r ∧ s' = socket' := by simpa [h'] using hrun
      rfl

theorem head?_readLoop (st : σ) (socket : ByteStream) :
    (readLoop handle st socket).head? = some ((readRecord socket).map Prod.fst) := by
  cases h : readRecord socket with
  | error rc =>
    rw [readLoop_error h]
    rfl
  | ok v =>
    rw [readLoop_ok h]
    rfl

/-- The first record is cut exactly when the loop falls short in it. -/
theorem shortAt_eq_zero (st : σ) {socket : ByteStream} {i : ℕ} :
    shortAt handle st socket = some (0, i) ↔ recordReader.firstCut socket = some i := by
  cases hcut : recordReader.firstCut socket with
  | some j => simp [shortAt_some hcut]
  | none =>
    cases h : readRecord socket with
    | error rc => simp [shortAt_error hcut h]
    | ok v =>
      rw [shortAt_ok hcut h]
      cases handle st v.1 <;> simp

/-- Streams that deliver the same bytes give the loop the same results exactly
when their schedules first fall short at the same read, or nowhere. -/
theorem readLoop_eq_iff (st : σ) {a b : ByteStream} (h : a.pending = b.pending) :
    readLoop handle st a = readLoop handle st b ↔ shortAt handle st a = shortAt handle st b := by
  induction hn : a.pending.length using Nat.strong_induction_on generalizing st a b with
  | h n ih =>
    subst hn
    have hrecord := (readRecord_map_eq_iff a b).trans (recordReader.outcome_eq_iff h)
    by_cases hcut : recordReader.firstCut a = recordReader.firstCut b
    · have hmap := hrecord.mpr hcut
      cases ha : readRecord a with
      | error rc =>
        cases hb : readRecord b with
        | ok v => simp [ha, hb, Except.map] at hmap
        | error rc' =>
          rw [ha, hb] at hmap
          have hrc : rc = rc' := by simpa [Except.map] using hmap
          rw [readLoop_error ha, readLoop_error hb, hrc]
          cases hca : recordReader.firstCut a with
          | some i => simp [shortAt_some hca, shortAt_some (hcut ▸ hca)]
          | none => simp [shortAt_error hca ha, shortAt_error (hcut ▸ hca) hb]
      | ok v =>
        obtain ⟨r, a'⟩ := v
        cases hb : readRecord b with
        | error rc => simp [ha, hb, Except.map] at hmap
        | ok v =>
          obtain ⟨r', b'⟩ := v
          obtain rfl : r = r' := by simpa [ha, hb, Except.map] using hmap
          have hca := Reader.firstCut_of_run (run_of_readRecord ha)
          have hcb := Reader.firstCut_of_run (run_of_readRecord hb)
          have hrest := Reader.pending_eq_of_run h (run_of_readRecord ha) (run_of_readRecord hb)
          rw [readLoop_ok ha, readLoop_ok hb, shortAt_ok hca ha, shortAt_ok hcb hb]
          cases handle st r with
          | none => simp
          | some st' =>
            have hsucc : Function.Injective fun at' : ℕ × ℕ => (at'.1 + 1, at'.2) := by
              intro x y hxy
              simpa [Prod.ext_iff] using hxy
            simp only [List.cons.injEq, true_and, (Option.map_injective hsucc).eq_iff]
            exact ih _ (pending_length_readRecord ha) st' hrest rfl
    · -- one of the first records is cut where the other is not
      have hhead : readLoop handle st a ≠ readLoop handle st b := by
        intro heq
        have hheads := congrArg List.head? heq
        rw [head?_readLoop, head?_readLoop, Option.some.injEq] at hheads
        exact hcut (hrecord.mp hheads)
      have hshort : shortAt handle st a ≠ shortAt handle st b := by
        intro heq
        apply hcut
        ext i
        rw [← shortAt_eq_zero st, ← shortAt_eq_zero st, heq]
      simp only [hhead, hshort]

end Loop

variable (S : Sodium)

/-- One turn of the loop: the state machine, with fresh entropy for each call. A
call that does not return ends the process, and with it the loop. -/
def serve (st : World × (ℕ → Entropy)) (r : Record) : Option (World × (ℕ → Entropy)) :=
  match mainStateMech S (st.2 0) st.1 r.toTLSPlaintext with
  | .ok (rc, w) => if rc ≠ 0 then none else some (w, fun i => st.2 (i + 1))
  | .error _ => none

/-- The results of `read_record` in a run of `main`. -/
def mainReads (heap : Allocated) (entropy : ℕ → Entropy) (socket : ByteStream) :
    List (Except ℤ Record) :=
  readLoop (serve S) (World.init heap, entropy) socket

/-- The first request of a run of `main` that its schedule cuts. -/
def mainShortAt (heap : Allocated) (entropy : ℕ → Entropy) (socket : ByteStream) : Option (ℕ × ℕ) :=
  shortAt (serve S) (World.init heap, entropy) socket

/-- Two schedules of one stream give `main` the same records and codes exactly
when they cut the same request first, or none. -/
theorem mainReads_eq_iff (heap : Allocated) (entropy : ℕ → Entropy) (stream : Bytes)
    (delivery delivery' : ℕ → ℕ) :
    mainReads S heap entropy ⟨stream, delivery⟩ = mainReads S heap entropy ⟨stream, delivery'⟩ ↔
      mainShortAt S heap entropy ⟨stream, delivery⟩ =
        mainShortAt S heap entropy ⟨stream, delivery'⟩ :=
  readLoop_eq_iff _ rfl

/-- A record of one byte, delivered whole and byte by byte: the read of the
version falls short, and the record is reported as an error. -/
theorem mainReads_byteByByte :
    mainReads Sodium.reference sampleHeap (fun _ => sampleEntropy)
        ⟨[0x16, 0x03, 0x03, 0x00, 0x01, 0x01], fun _ => 1⟩ = [.error (-3)] ∧
      mainReads Sodium.reference sampleHeap (fun _ => sampleEntropy)
        ⟨[0x16, 0x03, 0x03, 0x00, 0x01, 0x01], fun _ => 6⟩ ≠ [.error (-3)] := by
  refine ⟨readLoop_error rfl, fun h => ?_⟩
  have hheads := congrArg List.head? h
  rw [mainReads, head?_readLoop] at hheads
  cases hheads

end TLS13
