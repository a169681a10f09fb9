import Mathlib.Tactic

/-! Machines that answer each input, and stop at some answers or at a fault. A
machine simulates another when related states give equal faults, equal answers
and related states again; that it does for one step carries over to every run. -/

namespace TLS13.Lib

variable {σ τ ι ω ε : Type}

/-- A step gives the next state and an answer, and some answers end the run. -/
structure Machine (σ ι ω ε : Type) where
  step : σ → ι → Except ε (σ × ω)
  stops : ω → Bool

/-- What a run leaves: the state before the fault or after the last answer, the
answers, and the fault if there was one. -/
structure Machine.Result (σ ω ε : Type) where
  state : σ
  answers : List ω
  fault : Option ε

namespace Machine

def run (M : Machine σ ι ω ε) (s : σ) : List ι → Result σ ω ε
  | [] => ⟨s, [], none⟩
  | i :: is =>
    match M.step s i with
    | .error e => ⟨s, [], some e⟩
    | .ok (s', o) =>
      if M.stops o then ⟨s', [o], none⟩
      else
        let rest := M.run s' is
        ⟨rest.state, o :: rest.answers, rest.fault⟩

/-- `M` does what `N` does, on states in `R`. -/
structure Simulates (M : Machine σ ι ω ε) (N : Machine τ ι ω ε) (R : σ → τ → Prop) : Prop where
  stops : M.stops = N.stops
  step_error : ∀ {s t i e}, R s t → N.step t i = .error e → M.step s i = .error e
  step_ok : ∀ {s t t' i o}, R s t → N.step t i = .ok (t', o) →
    ∃ s', M.step s i = .ok (s', o) ∧ R s' t'

variable {M : Machine σ ι ω ε} {N : Machine τ ι ω ε} {R : σ → τ → Prop}

theorem run_error {s : σ} {i : ι} {e : ε} (h : M.step s i = .error e) (is : List ι) :
    M.run s (i :: is) = ⟨s, [], some e⟩ := by
  rw [run, h]

theorem run_stop {s s' : σ} {i : ι} {o : ω} (h : M.step s i = .ok (s', o))
    (hstop : M.stops o = true) (is : List ι) : M.run s (i :: is) = ⟨s', [o], none⟩ := by
  rw [run, h]
  exact if_pos hstop

theorem run_go {s s' : σ} {i : ι} {o : ω} (h : M.step s i = .ok (s', o))
    (hgo : M.stops o = false) (is : List ι) :
    M.run s (i :: is) =
      ⟨(M.run s' is).state, o :: (M.run s' is).answers, (M.run s' is).fault⟩ := by
  rw [run, h]
  exact if_neg (by rw [hgo]; decide)

/-- What the answer of every step has, all answers of a run have. -/
theorem forall_answers {P : ω → Prop} (h : ∀ {s i s' o}, M.step s i = .ok (s', o) → P o) (s : σ)
    (is : List ι) : ∀ o ∈ (M.run s is).answers, P o := by
  induction is generalizing s with
  | nil => simp [run]
  | cons i is ih =>
    cases hstep : M.step s i with
    | error e =>
      rw [run_error hstep]
      simp
    | ok v =>
      obtain ⟨s', o⟩ := v
      cases hstop : M.stops o with
      | true =>
        rw [run_stop hstep hstop]
        simpa using h hstep
      | false =>
        rw [run_go hstep hstop]
        intro o' ho
        rcases List.mem_cons.mp ho with rfl | ho
        · exact h hstep
        · exact ih s' o' ho

/-- Runs from related states give the same answers and the same fault. -/
theorem Simulates.run (h : Simulates M N R) {s : σ} {t : τ} (hR : R s t) (is : List ι) :
    (M.run s is).answers = (N.run t is).answers ∧ (M.run s is).fault = (N.run t is).fault ∧
      R (M.run s is).state (N.run t is).state := by
  induction is generalizing s t with
  | nil => exact ⟨rfl, rfl, hR⟩
  | cons i is ih =>
    cases hN : N.step t i with
    | error e =>
      rw [run_error hN, run_error (h.step_error hR hN)]
      exact ⟨rfl, rfl, hR⟩
    | ok v =>
      obtain ⟨t', o⟩ := v
      obtain ⟨s', hM, hR'⟩ := h.step_ok hR hN
      cases hstop : N.stops o with
      | true =>
        rw [run_stop hN hstop, run_stop hM (by rw [h.stops, hstop])]
        exact ⟨rfl, rfl, hR'⟩
      | false =>
        obtain ⟨hanswers, hfault, hstate⟩ := ih hR'
        rw [run_go hN hstop, run_go hM (by rw [h.stops, hstop])]
        exact ⟨congrArg (o :: ·) hanswers, hfault, hstate⟩

end Machine

end TLS13.Lib
