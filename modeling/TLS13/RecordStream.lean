import TLS13.Loop
import TLS13.Main

/-! Records one after the other on a stream that is delivered at once. Reading
takes exactly the bytes of one record, so a list of records comes back as it was
written, and a stream that ends inside a record fails at that record. The loop of
`main` then hands the state machine the records that were sent. -/

namespace TLS13

open Lib

/-- `read_record` again and again, until it fails. -/
def readAll (socket : ByteStream) : List (Except ℤ Record) :=
  readLoop (fun (_ : Unit) _ => some ()) () socket

theorem readAll_ok {socket socket' : ByteStream} {r : Record}
    (h : readRecord socket = .ok (r, socket')) : readAll socket = .ok r :: readAll socket' :=
  readLoop_ok h

theorem readAll_error {socket : ByteStream} {rc : ℤ} (h : readRecord socket = .error rc) :
    readAll socket = [.error rc] := readLoop_error h

/-- The records in front of a stream are read, and reading goes on behind them. -/
theorem readAll_records (recs : List Record) {socket : ByteStream} {rest : Bytes}
    (hp : socket.pending = recs.flatMap Record.encode ++ rest) (hd : socket.Delivers) :
    ∃ socket' : ByteStream, socket'.pending = rest ∧ socket'.Delivers ∧
      readAll socket = recs.map .ok ++ readAll socket' := by
  induction recs generalizing socket with
  | nil => exact ⟨socket, hp, hd, rfl⟩
  | cons r recs ih =>
    rw [List.flatMap_cons, List.append_assoc] at hp
    obtain ⟨s, hps, hds, hread⟩ := readRecord_encode hp hd
    obtain ⟨socket', hp', hd', hall⟩ := ih hps hds
    refine ⟨socket', hp', hd', ?_⟩
    rw [readAll_ok hread, hall]
    rfl

theorem readRecord_nil {socket : ByteStream} (h : socket.pending = []) :
    readRecord socket = .error (-1) := by
  have hshort : socket.amount 1 ≠ 1 := by simp [ByteStream.amount, h]
  rw [readRecord_eq_run, recordReader, Reader.run_ask_of_short hshort]
  rfl

/-- The records that were encoded are read back in order, and then the end of the
stream with code -1; with a part of another record in front of the end, reading
that record fails. -/
theorem record_stream (recs : List Record) :
    ∃ encodings : List Bytes,
      recs.map (fun r => processRecord r.toTLSPlaintext) = encodings.map .ok ∧
      (∀ socket : ByteStream, socket.pending = encodings.flatten → socket.Delivers →
        readAll socket = recs.map .ok ++ [.error (-1)]) ∧
      ∀ (last : Record) (encoding cut missing : Bytes) (socket : ByteStream),
        processRecord last.toTLSPlaintext = .ok encoding → encoding = cut ++ missing →
        cut ≠ [] → missing ≠ [] → socket.pending = encodings.flatten ++ cut → socket.Delivers →
          ∃ rc, rc ≠ 0 ∧ readAll socket = recs.map .ok ++ [.error rc] := by
  refine ⟨recs.map Record.encode, ?_, ?_, ?_⟩
  · rw [List.map_map]
    apply List.map_congr_left
    intro r _
    exact processRecord_eq r
  · intro socket hp hd
    have hall : socket.pending = recs.flatMap Record.encode ++ [] := by
      rw [List.append_nil, List.flatMap_def, hp]
    obtain ⟨socket', hp', -, hread⟩ := readAll_records recs hall hd
    rw [hread, readAll_error (readRecord_nil hp')]
  · intro last encoding cut missing socket hencode hcut _ hmissing hp hd
    rw [processRecord_eq] at hencode
    cases hencode
    rw [← List.flatMap_def] at hp
    obtain ⟨socket', hp', hd', hread⟩ := readAll_records recs hp hd
    obtain ⟨rc, hrc, hlast⟩ := readRecord_truncated (hp'.symm ▸ hcut) hmissing hd'
    exact ⟨rc, hrc, by rw [hread, readAll_error hlast]⟩

/-- The sample record twice, at the end of the stream and with a third begun. -/
theorem record_stream_sample :
    ∃ bs : Bytes,
      readAll (ByteStream.whole bs) = [.ok sampleRecord, .ok sampleRecord, .error (-1)] ∧
      ∃ rc, rc ≠ 0 ∧ readAll (ByteStream.whole (bs ++ [handshakeType])) =
        [.ok sampleRecord, .ok sampleRecord, .error rc] := by
  obtain ⟨encodings, -, hwhole, hcut⟩ := record_stream [sampleRecord, sampleRecord]
  refine ⟨encodings.flatten, hwhole _ rfl (ByteStream.delivers_whole _), ?_⟩
  have hencode : sampleRecord.encode = [handshakeType] ++ sampleRecord.encode.tail := rfl
  have htail : sampleRecord.encode.tail ≠ [] := List.cons_ne_nil _ _
  exact hcut sampleRecord _ _ _ _ (processRecord_eq _) hencode (List.cons_ne_nil _ _) htail rfl
    (ByteStream.delivers_whole _)

/-! ### The loop of main on such a stream -/

/-- The records that arrive, each with the entropy of its turn. -/
def inputs (entropy : ℕ → Entropy) : List Record → List Input
  | [] => []
  | r :: recs => ⟨entropy 0, r⟩ :: inputs (fun i => entropy (i + 1)) recs

variable {S : Sodium}

theorem serve_of_step {w t : World} {entropy : ℕ → Entropy} {r : Record} {rc : ℤ}
    (h : (Input.call ⟨entropy 0, r⟩ rc).Step S w t) :
    serve S (w, entropy) r = if rc ≠ 0 then none else some (t, fun i => entropy (i + 1)) := by
  have hcall : mainStateMech S (entropy 0) w r.toTLSPlaintext = .ok (rc, t) := h
  simp only [serve, hcall]

/-- The records that the loop reads are those of the calls it makes, and the end
of the stream is read when no call stopped it. -/
theorem readLoop_serve (recs : List Record) {w u : World} {entropy : ℕ → Entropy}
    {calls : List Call} {socket : ByteStream}
    (h : serveAll S w (inputs entropy recs) = .ok (calls, u))
    (hp : socket.pending = recs.flatMap Record.encode) (hd : socket.Delivers) :
    readLoop (serve S) (w, entropy) socket =
      calls.map (fun c => .ok c.record) ++
        if ∀ c ∈ calls, c.code = 0 then [.error (-1)] else [] := by
  induction recs generalizing w entropy calls socket with
  | nil =>
    cases h
    rw [readLoop_error (readRecord_nil hp)]
    simp
  | cons r recs ih =>
    rw [List.flatMap_cons] at hp
    obtain ⟨s, hps, hds, hread⟩ := readRecord_encode hp hd
    rw [readLoop_ok hread]
    rcases serveAll_cons_eq_ok h with ⟨rc, hrc, rfl, hcall⟩ | ⟨t, calls', hcall, hrest, rfl⟩
    · rw [serve_of_step hcall, if_pos hrc]
      simp [Input.call, hrc]
    · rw [serve_of_step hcall, if_neg (not_not.mpr rfl)]
      show .ok r :: readLoop (serve S) (t, fun i => entropy (i + 1)) s = _
      rw [ih hrest hps hds]
      simp [Input.call]

/-- A run of `main` on a stream of records reads the records of its calls. -/
theorem mainReads_records (recs : List Record) {heap : Allocated} {entropy : ℕ → Entropy}
    {u : World} {calls : List Call}
    (h : serveAll S (World.init heap) (inputs entropy recs) = .ok (calls, u)) :
    mainReads S heap entropy (ByteStream.whole (recs.flatMap Record.encode)) =
      calls.map (fun c => .ok c.record) ++
        if ∀ c ∈ calls, c.code = 0 then [.error (-1)] else [] :=
  readLoop_serve recs h rfl (ByteStream.delivers_whole _)

end TLS13
