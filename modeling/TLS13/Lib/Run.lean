import Mathlib.Tactic

/-! Runs of a labelled step relation, with the rules that carry a fact about one
step to every run: an invariant is kept, a condition on the labels holds at each
step, and what some labels raise is raised once for each of them. -/

namespace TLS13.Lib

variable {σ ι : Type} {Step : σ → ι → σ → Prop}

/-- The steps labelled `ls`, one after the other, lead from `s` to the last state. -/
inductive Run (Step : σ → ι → σ → Prop) (s : σ) : List ι → σ → Prop
  | nil : Run Step s [] s
  | snoc {ls : List ι} {l : ι} {t u : σ} : Run Step s ls t → Step t l u → Run Step s (ls ++ [l]) u

namespace Run

variable {s t u : σ} {ls : List ι} {l : ι}

theorem single (h : Step s l t) : Run Step s [l] t := by
  simpa using Run.nil.snoc h

theorem cons (h : Step s l t) (h' : Run Step t ls u) : Run Step s (l :: ls) u := by
  induction h' with
  | nil => exact single h
  | snoc _ hstep ih => exact ih.snoc hstep

theorem nil_iff : Run Step s [] u ↔ s = u := by
  constructor
  · intro h
    generalize hls : ([] : List ι) = ls at h
    cases h with
    | nil => rfl
    | snoc _ _ => simp at hls
  · rintro rfl
    exact .nil

/-- A run is taken apart from its end. -/
theorem snoc_iff : Run Step s (ls ++ [l]) u ↔ ∃ t, Run Step s ls t ∧ Step t l u := by
  constructor
  · intro h
    generalize hls : ls ++ [l] = ls' at h
    cases h with
    | nil => simp at hls
    | snoc h hl =>
      obtain ⟨rfl, hlast⟩ := List.append_inj' hls rfl
      obtain rfl := List.singleton_inj.mp hlast
      exact ⟨_, h, hl⟩
  · rintro ⟨t, h, hl⟩
    exact h.snoc hl

/-- A run is taken apart from its start. -/
theorem cons_iff : Run Step s (l :: ls) u ↔ ∃ t, Step s l t ∧ Run Step t ls u := by
  constructor
  · intro h
    induction ls using List.reverseRecOn generalizing u with
    | nil =>
      obtain ⟨t, hnil, hl⟩ := snoc_iff.mp (show Run Step s ([] ++ [l]) u from h)
      obtain rfl := nil_iff.mp hnil
      exact ⟨u, hl, .nil⟩
    | append_singleton ls l' ih =>
      obtain ⟨t, hrun, hl'⟩ := snoc_iff.mp (show Run Step s ((l :: ls) ++ [l']) u from h)
      obtain ⟨t', hl, hrest⟩ := ih hrun
      exact ⟨t', hl, hrest.snoc hl'⟩
  · rintro ⟨t, hl, hrun⟩
    exact cons hl hrun

/-- What is known of a step is known of every step of a run. -/
theorem mono {Step' : σ → ι → σ → Prop} (hstep : ∀ {a l b}, Step a l b → Step' a l b)
    (h : Run Step s ls t) : Run Step' s ls t := by
  induction h with
  | nil => exact .nil
  | snoc _ hl ih => exact ih.snoc (hstep hl)

/-- An invariant that every step keeps holds at the end of a run it holds at the start of. -/
theorem invariant {Inv : σ → Prop} (hstep : ∀ {a l b}, Inv a → Step a l b → Inv b)
    (h : Run Step s ls t) (hs : Inv s) : Inv t := by
  induction h with
  | nil => exact hs
  | snoc _ hl ih => exact hstep ih hl

/-- What holds of every label of a run may be assumed of each step. -/
theorem restrict {P : ι → Prop} (h : Run Step s ls t) (hP : ∀ l ∈ ls, P l) :
    Run (fun a l b => Step a l b ∧ P l) s ls t := by
  induction h with
  | nil => exact .nil
  | @snoc ls l t u _ hl ih =>
    refine (ih fun a ha => hP a (List.mem_append_left _ ha)).snoc ⟨hl, hP l ?_⟩
    exact List.mem_append_right _ (List.mem_singleton.mpr rfl)

/-- A quantity that no step lowers, and each step with a label in `p` raises, is
raised at least by the number of such labels. -/
theorem add_countP_le {f : σ → ℕ} (p : ι → Prop) [DecidablePred p]
    (hstep : ∀ {a l b}, Step a l b → f a + (if p l then 1 else 0) ≤ f b) (h : Run Step s ls t) :
    f s + ls.countP p ≤ f t := by
  induction h with
  | nil => exact le_rfl
  | @snoc ls l t u _ hl ih =>
    have hlast := hstep hl
    have hcount : (ls ++ [l]).countP p = ls.countP p + if p l then 1 else 0 := by
      simp [List.countP_append, List.countP_cons]
    rw [hcount]
    omega

end Run

end TLS13.Lib
