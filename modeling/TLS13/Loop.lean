import TLS13.Server

/-! The loop of `main.c` over the records it reads: each is handed to the state
machine, and the first nonzero code ends the loop. The calls it makes are a run
whose codes are 0 before the last one. -/

namespace TLS13

open Lib

variable (S : Sodium)

/-- What one turn of the loop is given. -/
structure Input where
  entropy : Entropy
  record : Record

def Input.call (i : Input) (code : ℤ) : Call := ⟨i.entropy, i.record, code⟩

/-- The calls made on the records that arrive, and the world they leave. -/
def serveAll (w : World) : List Input → Checked (List Call × World)
  | [] => return ([], w)
  | i :: is => do
    let (rc, w) ← mainStateMech S i.entropy w i.record.toTLSPlaintext
    if rc ≠ 0 then return ([i.call rc], w)
    else
      let (calls, w) ← serveAll w is
      return (i.call rc :: calls, w)

variable {S}

theorem serveAll_cons_of_zero {w t : World} {i : Input} (is : List Input)
    (hcall : (i.call 0).Step S w t) :
    serveAll S w (i :: is) = do
      let (calls, u) ← serveAll S t is
      return (i.call 0 :: calls, u) := by
  have hcall' : mainStateMech S i.entropy w i.record.toTLSPlaintext = .ok (0, t) := hcall
  simp only [serveAll, hcall', Checked.bind_ok, ne_eq, not_true_eq_false, if_false]

theorem serveAll_cons_of_ne_zero {w t : World} {i : Input} {rc : ℤ} (is : List Input)
    (hcall : (i.call rc).Step S w t) (hrc : rc ≠ 0) :
    serveAll S w (i :: is) = .ok ([i.call rc], t) := by
  have hcall' : mainStateMech S i.entropy w i.record.toTLSPlaintext = .ok (rc, t) := hcall
  simp only [serveAll, hcall', Checked.bind_ok, if_pos hrc, Checked.pure_eq]

/-- A loop that ends made one call and stopped, or went on from the next world. -/
theorem serveAll_cons_eq_ok {w u : World} {i : Input} {is : List Input} {calls : List Call}
    (h : serveAll S w (i :: is) = .ok (calls, u)) :
    (∃ rc, rc ≠ 0 ∧ calls = [i.call rc] ∧ (i.call rc).Step S w u) ∨
      ∃ t calls', (i.call 0).Step S w t ∧ serveAll S t is = .ok (calls', u) ∧
        calls = i.call 0 :: calls' := by
  obtain ⟨⟨rc, t⟩, hcall, -⟩ := Checked.bind_eq_ok.mp h
  by_cases hrc : rc = 0
  · subst hrc
    rw [serveAll_cons_of_zero is hcall] at h
    obtain ⟨⟨calls', u'⟩, hrest, hlast⟩ := Checked.bind_eq_ok.mp h
    cases hlast
    exact .inr ⟨t, calls', hcall, hrest, rfl⟩
  · rw [serveAll_cons_of_ne_zero is hcall hrc] at h
    cases h
    exact .inl ⟨rc, hrc, rfl, hcall⟩

/-- The calls of the loop are a run, and only the last one has another code than 0. -/
theorem serveAll_run {w u : World} {is : List Input} {calls : List Call}
    (h : serveAll S w is = .ok (calls, u)) :
    Run (Call.Step S) w calls u ∧ ∀ c ∈ calls.dropLast, c.code = 0 := by
  induction is generalizing w calls with
  | nil =>
    cases h
    exact ⟨.nil, by simp⟩
  | cons i is ih =>
    rcases serveAll_cons_eq_ok h with ⟨rc, -, rfl, hcall⟩ | ⟨t, calls', hcall, hrest, rfl⟩
    · exact ⟨.single hcall, by simp⟩
    · obtain ⟨hrun, hcodes⟩ := ih hrest
      refine ⟨.cons hcall hrun, ?_⟩
      intro c hc
      cases calls' with
      | nil => simp at hc
      | cons c' calls' =>
        rcases List.mem_cons.mp hc with rfl | hc
        · rfl
        · exact hcodes c hc

/-- Codes that are all 0 belong to all the records that arrived. -/
theorem serveAll_calls_eq {w t : World} {is : List Input} {calls : List Call}
    (h : serveAll S w is = .ok (calls, t)) (hcodes : ∀ c ∈ calls, c.code = 0) :
    calls = is.map (Input.call · 0) := by
  induction is generalizing w calls with
  | nil =>
    cases h
    rfl
  | cons i is ih =>
    rcases serveAll_cons_eq_ok h with ⟨rc, hrc, rfl, -⟩ | ⟨s, calls', -, hrest, rfl⟩
    · exact absurd (hcodes (i.call rc) (by simp)) hrc
    · rw [ih hrest fun c hc => hcodes c (List.mem_cons_of_mem _ hc)]
      rfl

/-- The loop gets through records whose calls all return 0, and goes on. -/
theorem serveAll_append {w t : World} {pre : List Input} (post : List Input)
    (h : serveAll S w pre = .ok (pre.map (Input.call · 0), t)) :
    serveAll S w (pre ++ post) = do
      let (calls, u) ← serveAll S t post
      return (pre.map (Input.call · 0) ++ calls, u) := by
  induction pre generalizing w with
  | nil =>
    cases h
    rw [List.nil_append]
    cases serveAll S t post <;> rfl
  | cons i is ih =>
    rcases serveAll_cons_eq_ok h with ⟨rc, hrc, hcalls, -⟩ | ⟨s, calls', hcall, hrest, hcalls⟩
    · exact absurd (congrArg Call.code (List.cons.inj hcalls).1) hrc.symm
    · obtain rfl := (List.cons.inj hcalls).2
      rw [List.cons_append, serveAll_cons_of_zero _ hcall, ih hrest]
      cases hpost : serveAll S t post <;> simp

end TLS13
