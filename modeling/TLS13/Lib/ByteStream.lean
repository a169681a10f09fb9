import TLS13.Lib.Bytes

/-! Byte streams that arrive in pieces. A read is given some of the bytes it
asks for, at least one while any is left, and how many is the schedule's choice.
A `Reader` is a program of reads that stops at the first one it does not get in
full. Two streams with the same bytes give such a program the same outcome
exactly when their schedules cut the same request first. -/

namespace TLS13.Lib

/-- The bytes still to come, and how many of them each further read finds. -/
structure ByteStream where
  pending : Bytes
  delivery : ℕ → ℕ

namespace ByteStream

/-- The number of bytes that a read of `n` is given. -/
def amount (s : ByteStream) (n : ℕ) : ℕ := min (min n s.pending.length) (max 1 (s.delivery 0))

def read (s : ByteStream) (n : ℕ) : Bytes × ByteStream :=
  (s.pending.take (s.amount n), ⟨s.pending.drop (s.amount n), fun i => s.delivery (i + 1)⟩)

/-- The bytes that were asked for are in the stream, and the read is given fewer. -/
def Cuts (s : ByteStream) (n : ℕ) : Prop := n ≤ s.pending.length ∧ s.amount n < n

instance (s : ByteStream) (n : ℕ) : Decidable (s.Cuts n) :=
  inferInstanceAs (Decidable (_ ∧ _))

variable {s : ByteStream} {n : ℕ}

@[simp] theorem length_read : (s.read n).1.length = s.amount n := by
  simp only [read, List.length_take, amount]
  omega

/-- A read that is not cut is full exactly when the stream holds enough. -/
theorem amount_eq_iff (h : ¬ s.Cuts n) : s.amount n = n ↔ n ≤ s.pending.length := by
  simp only [Cuts, amount] at *
  omega

theorem amount_lt_of_cuts (h : s.Cuts n) : s.amount n < n := h.2

/-- A read that is given all it asks for. -/
def readFull (s : ByteStream) (h : s.amount n = n) : Block n :=
  ⟨(s.read n).1, length_read.trans h⟩

@[simp] theorem readFull_val (h : s.amount n = n) : (s.readFull h).val = (s.read n).1 := rfl

theorem readFull_congr {a b : ByteStream} (h : a.pending = b.pending) (ha : a.amount n = n)
    (hb : b.amount n = n) : a.readFull ha = b.readFull hb := by
  apply Subtype.ext
  rw [readFull_val, readFull_val, read, read, ha, hb, h]

theorem pending_congr {a b : ByteStream} (h : a.pending = b.pending) (ha : a.amount n = n)
    (hb : b.amount n = n) : (a.read n).2.pending = (b.read n).2.pending := by
  rw [read, read, ha, hb, h]

/-- Every read finds all the bytes that are left. -/
def Delivers (s : ByteStream) : Prop := ∀ i, s.pending.length ≤ s.delivery i

/-- A stream that holds `bs`, all of it delivered at once. -/
def whole (bs : Bytes) : ByteStream := ⟨bs, fun _ => bs.length⟩

theorem delivers_whole (bs : Bytes) : (whole bs).Delivers := fun _ => le_rfl

theorem delivers_read (h : s.Delivers) : (s.read n).2.Delivers := by
  intro i
  have hi := h (i + 1)
  simp only [read, List.length_drop]
  omega

theorem amount_of_delivers (h : s.Delivers) (hn : n ≤ s.pending.length) : s.amount n = n := by
  have h0 := h 0
  simp only [amount]
  omega

end ByteStream

/-! ### Programs of reads -/

/-- A program that asks for bytes and goes on with what it got. -/
inductive Reader (α : Type)
  | done (a : α)
  | ask (n : ℕ) (next : Block n → Reader α)

namespace Reader

variable {α : Type}

/-- The value and the rest of the stream, or the number of the request that was
not given in full. -/
def run : Reader α → ByteStream → Except ℕ (α × ByteStream)
  | done a, s => .ok (a, s)
  | ask n next, s =>
    if h : s.amount n = n then ((next (s.readFull h)).run (s.read n).2).mapError (· + 1)
    else .error 0

/-- The number of the first request that the schedule cuts. -/
def firstCut : Reader α → ByteStream → Option ℕ
  | done _, _ => none
  | ask n next, s =>
    if s.Cuts n then some 0
    else if h : s.amount n = n then
      ((next (s.readFull h)).firstCut (s.read n).2).map (· + 1)
    else none

/-- What the caller of a program sees of a run. -/
def outcome (p : Reader α) (s : ByteStream) : Except ℕ α := (p.run s).map Prod.fst

theorem outcome_ask (n : ℕ) (next : Block n → Reader α) (s : ByteStream) :
    (ask n next).outcome s =
      if h : s.amount n = n then
        ((next (s.readFull h)).outcome (s.read n).2).mapError (· + 1)
      else .error 0 := by
  simp only [outcome, run]
  split
  · rename_i h
    cases (next (s.readFull h)).run (s.read n).2 <;> rfl
  · rfl

theorem mapError_eq_ok {β ε : Type} {x : Except ℕ β} {f : ℕ → ε} {v : β} :
    x.mapError f = .ok v ↔ x = .ok v := by
  cases x <;> simp [Except.mapError]

theorem mapError_succ_inj {x y : Except ℕ α} :
    x.mapError (· + 1) = y.mapError (· + 1) ↔ x = y := by
  cases x <;> cases y <;> simp [Except.mapError]

theorem mapError_succ_ne_zero (x : Except ℕ α) : x.mapError (· + 1) ≠ .error 0 := by
  cases x <;> simp [Except.mapError]

theorem map_succ_ne_zero (x : Option ℕ) : x.map (· + 1) ≠ some 0 := by
  cases x <;> simp

/-- Two schedules of one stream give a program the same outcome exactly when
they cut the same request first. -/
theorem outcome_eq_iff (p : Reader α) {a b : ByteStream} (h : a.pending = b.pending) :
    p.outcome a = p.outcome b ↔ p.firstCut a = p.firstCut b := by
  induction p generalizing a b with
  | done x => simp [outcome, run, firstCut, Except.map]
  | ask n next ih =>
    rw [outcome_ask, outcome_ask, firstCut, firstCut]
    by_cases ha : a.Cuts n <;> by_cases hb : b.Cuts n
    · simp [ha, hb, (ByteStream.amount_lt_of_cuts ha).ne, (ByteStream.amount_lt_of_cuts hb).ne]
    · -- the stream holds the request, so the run that is not cut gets past it
      have hfull : b.amount n = n := (ByteStream.amount_eq_iff hb).mpr (h ▸ ha.1)
      simp only [ha, hb, (ByteStream.amount_lt_of_cuts ha).ne, hfull, if_true, if_false, dite_true,
        dite_false, (mapError_succ_ne_zero _).symm, (map_succ_ne_zero _).symm]
    · have hfull : a.amount n = n := (ByteStream.amount_eq_iff ha).mpr (h ▸ hb.1)
      simp only [ha, hb, (ByteStream.amount_lt_of_cuts hb).ne, hfull, if_true, if_false, dite_true,
        dite_false, mapError_succ_ne_zero, map_succ_ne_zero]
    · by_cases hn : n ≤ a.pending.length
      · have hfa : a.amount n = n := (ByteStream.amount_eq_iff ha).mpr hn
        have hfb : b.amount n = n := (ByteStream.amount_eq_iff hb).mpr (h ▸ hn)
        have hsucc : Function.Injective fun k : ℕ => k + 1 := add_left_injective 1
        simp only [ha, hb, hfa, hfb, if_false, dite_true, mapError_succ_inj,
          (Option.map_injective hsucc).eq_iff, ByteStream.readFull_congr h hfa hfb]
        exact ih _ (ByteStream.pending_congr h hfa hfb)
      · have hfa : a.amount n ≠ n := fun h' => hn ((ByteStream.amount_eq_iff ha).mp h')
        have hfb : b.amount n ≠ n := fun h' => hn (h ▸ (ByteStream.amount_eq_iff hb).mp h')
        simp only [ha, hb, hfa, hfb, if_false, dite_false]

/-- A run gets through a request that it is given in full. -/
theorem run_ask_eq_ok {n : ℕ} {next : Block n → Reader α} {s : ByteStream} {v : α × ByteStream} :
    (ask n next).run s = .ok v ↔
      ∃ h : s.amount n = n, (next (s.readFull h)).run (s.read n).2 = .ok v := by
  rw [run]
  split <;> simp_all [mapError_eq_ok]

/-- A run fails at a request that is not given in full, or later. -/
theorem run_ask_eq_error {n i : ℕ} {next : Block n → Reader α} {s : ByteStream} :
    (ask n next).run s = .error i ↔
      (s.amount n ≠ n ∧ i = 0) ∨
        ∃ (h : s.amount n = n) (j : ℕ), i = j + 1 ∧
          (next (s.readFull h)).run (s.read n).2 = .error j := by
  rw [run]
  split
  · rename_i h
    cases hr : (next (s.readFull h)).run (s.read n).2 <;>
      simp [hr, h, Except.mapError, eq_comm]
  · rename_i h
    simp [h, eq_comm]

theorem run_ask_of_short {n : ℕ} {next : Block n → Reader α} {s : ByteStream} (h : s.amount n ≠ n) :
    (ask n next).run s = .error 0 := dif_neg h

/-- What a full read returns, and how a program goes on after it. -/
theorem run_ask_of_full {n : ℕ} {s : ByteStream} (h : s.amount n = n) :
    ∃ (b : Block n) (s' : ByteStream), s.read n = (b.val, s') ∧
      ∀ {β : Type} (next : Block n → Reader β),
        (ask n next).run s = ((next b).run s').mapError (· + 1) :=
  ⟨s.readFull h, (s.read n).2, rfl, fun _ => dif_pos h⟩

/-- Runs that get through leave the same bytes, whatever the schedules. -/
theorem pending_eq_of_run {p : Reader α} {a b a' b' : ByteStream} {x y : α}
    (h : a.pending = b.pending) (ha : p.run a = .ok (x, a')) (hb : p.run b = .ok (y, b')) :
    a'.pending = b'.pending := by
  induction p generalizing a b with
  | done z =>
    cases ha
    cases hb
    exact h
  | ask n next ih =>
    obtain ⟨hfa, ha'⟩ := run_ask_eq_ok.mp ha
    obtain ⟨hfb, hb'⟩ := run_ask_eq_ok.mp hb
    rw [ByteStream.readFull_congr h hfa hfb] at ha'
    exact ih _ (ByteStream.pending_congr h hfa hfb) ha' hb'

theorem pending_length_run {p : Reader α} {s s' : ByteStream} {x : α} (h : p.run s = .ok (x, s')) :
    s'.pending.length ≤ s.pending.length := by
  induction p generalizing s with
  | done z =>
    cases h
    exact le_rfl
  | ask n next ih =>
    obtain ⟨hfull, hnext⟩ := run_ask_eq_ok.mp h
    have hle := ih _ hnext
    have hread : (s.read n).2.pending.length ≤ s.pending.length := by
      simp only [ByteStream.read, List.length_drop]
      omega
    exact hle.trans hread

/-- A program that starts by asking for bytes uses some up. -/
theorem pending_length_run_ask {n : ℕ} {next : Block n → Reader α} {s s' : ByteStream} {x : α}
    (hn : 0 < n) (h : (ask n next).run s = .ok (x, s')) :
    s'.pending.length < s.pending.length := by
  obtain ⟨hfull, hnext⟩ := run_ask_eq_ok.mp h
  have hle := pending_length_run hnext
  have hamount : s.amount n ≤ s.pending.length := by
    simp only [ByteStream.amount]
    omega
  have hread : (s.read n).2.pending.length = s.pending.length - n := by
    rw [ByteStream.read, hfull, List.length_drop]
  omega

/-- A run that gets through was cut nowhere. -/
theorem firstCut_of_run {p : Reader α} {a a' : ByteStream} {x : α}
    (h : p.run a = .ok (x, a')) : p.firstCut a = none := by
  induction p generalizing a with
  | done z => rfl
  | ask n next ih =>
    obtain ⟨hfull, hnext⟩ := run_ask_eq_ok.mp h
    have hcut : ¬ a.Cuts n := fun hc => (ByteStream.amount_lt_of_cuts hc).ne hfull
    rw [firstCut, if_neg hcut, dif_pos hfull, ih _ hnext]
    rfl

/-! ### What a program reads -/

/-- The program `p` asks for exactly the bytes `bs`, and returns `a` on them. -/
inductive Reads : Reader α → Bytes → α → Prop
  | done {a : α} : Reads (done a) [] a
  | ask {n : ℕ} {next : Block n → Reader α} {bs : Bytes} {a : α} (b : Block n) :
      Reads (next b) bs a → Reads (ask n next) (b.val ++ bs) a

namespace Reads

variable {p : Reader α} {bs : Bytes} {a : α}

/-- On a stream that delivers the bytes the program returns, and leaves the rest. -/
theorem run (h : Reads p bs a) {s : ByteStream} {rest : Bytes} (hp : s.pending = bs ++ rest)
    (hd : s.Delivers) :
    ∃ s' : ByteStream, s'.pending = rest ∧ s'.Delivers ∧ p.run s = .ok (a, s') := by
  induction h generalizing s with
  | done => exact ⟨s, hp, hd, rfl⟩
  | @ask n next bs a b _ ih =>
    rw [List.append_assoc] at hp
    have hfull : s.amount n = n := ByteStream.amount_of_delivers hd (by simp [hp])
    have hb : s.readFull hfull = b := by
      apply Subtype.ext
      rw [ByteStream.readFull_val, ByteStream.read, hfull, hp, List.take_left' b.length_val]
    have hrest : (s.read n).2.pending = bs ++ rest := by
      rw [ByteStream.read, hfull, hp, List.drop_left' b.length_val]
    obtain ⟨s', hp', hd', hrun⟩ := ih hrest (ByteStream.delivers_read hd)
    exact ⟨s', hp', hd', run_ask_eq_ok.mpr ⟨hfull, hb.symm ▸ hrun⟩⟩

/-- A program that returns, whatever the schedule, has asked for the bytes that are gone. -/
theorem of_run {s s' : ByteStream} (h : p.run s = .ok (a, s')) :
    ∃ bs, Reads p bs a ∧ s.pending = bs ++ s'.pending := by
  induction p generalizing s with
  | done z =>
    cases h
    exact ⟨[], .done, rfl⟩
  | ask n next ih =>
    obtain ⟨hfull, hnext⟩ := run_ask_eq_ok.mp h
    obtain ⟨bs, hreads, hrest⟩ := ih _ hnext
    refine ⟨_, .ask (s.readFull hfull) hreads, ?_⟩
    rw [List.append_assoc, ← hrest, ByteStream.readFull_val, ByteStream.read, hfull,
      List.take_append_drop]

/-- On a stream that ends before the last of the bytes the program fails. -/
theorem run_of_truncated (h : Reads p bs a) {s : ByteStream} {rest : Bytes}
    (hp : bs = s.pending ++ rest) (hrest : rest ≠ []) (hd : s.Delivers) :
    ∃ i, p.run s = .error i := by
  induction h generalizing s with
  | done => exact absurd (List.append_eq_nil_iff.mp hp.symm).2 hrest
  | @ask n next bs a b _ ih =>
    by_cases hn : n ≤ s.pending.length
    · -- the request is granted, and what is left of the stream ends too early
      have hfull : s.amount n = n := ByteStream.amount_of_delivers hd hn
      have htake : s.pending.take n = b.val := by
        have hfront := congrArg (List.take n) hp
        rw [List.take_left' b.length_val, List.take_append_of_le_length hn] at hfront
        exact hfront.symm
      have hb : s.readFull hfull = b := by
        apply Subtype.ext
        rw [ByteStream.readFull_val, ByteStream.read, hfull, htake]
      have htail : bs = (s.read n).2.pending ++ rest := by
        have hback := congrArg (List.drop n) hp
        rw [List.drop_left' b.length_val, List.drop_append_of_le_length hn] at hback
        rw [ByteStream.read, hfull]
        exact hback
      obtain ⟨i, hi⟩ := ih htail (ByteStream.delivers_read hd)
      exact ⟨i + 1, run_ask_eq_error.mpr (.inr ⟨hfull, i, rfl, hb.symm ▸ hi⟩)⟩
    · have hshort : s.amount n ≠ n := by
        simp only [ByteStream.amount]
        omega
      exact ⟨0, run_ask_of_short hshort⟩

end Reads

end Reader

end TLS13.Lib
