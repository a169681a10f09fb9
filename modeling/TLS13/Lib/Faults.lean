import Mathlib.Data.Set.Insert
import TLS13.Lib.Checked

/-! The faults that a checked computation can stop at. A set of faults bounds a
computation when it returns or stops at one of them; bounds are put together
along a sequence, and a computation that is bounded by no fault returns. -/

namespace TLS13.Lib.Checked

variable {α β : Type}

/-- The computation returns, or stops at a fault in `F`. -/
def FaultsIn (x : Checked α) (F : Set Fault) : Prop := ∀ e, x = .error e → e ∈ F

namespace FaultsIn

variable {F G : Set Fault} {x : Checked α}

theorem ok (a : α) : FaultsIn (Except.ok a : Checked α) F := by
  intro e h
  cases h

theorem error {e : Fault} (h : e ∈ F) : FaultsIn (Except.error e : Checked α) F := by
  intro e' h'
  cases h'
  exact h

theorem mono (h : x.FaultsIn F) (hFG : F ⊆ G) : x.FaultsIn G := fun e he => hFG (h e he)

theorem bind {f : α → Checked β} (hx : x.FaultsIn F) (hf : ∀ a, x = .ok a → (f a).FaultsIn F) :
    (x >>= f).FaultsIn F := by
  cases x with
  | ok a => exact hf a rfl
  | error e =>
    intro e' h
    cases h
    exact hx e rfl

/-- A computation that is known to return adds no fault. -/
theorem of_returns (h : x.Returns) : x.FaultsIn F := by
  obtain ⟨a, rfl⟩ := h
  exact ok a

theorem returns (h : x.FaultsIn ∅) : x.Returns := by
  cases x with
  | ok a => exact ⟨a, rfl⟩
  | error e => exact absurd (h e rfl) (Set.notMem_empty e)

end FaultsIn

theorem OnlyOverReads.faultsIn {F : Set Fault} {x : Checked α} (h : x.OnlyOverReads)
    (hF : .overRead ∈ F) : x.FaultsIn F := by
  intro e he
  rw [h e he]
  exact hF

/-- A sequence returns when its first part does, with a value that its rest returns on. -/
theorem returns_bind_iff {x : Checked α} {f : α → Checked β} :
    (x >>= f).Returns ↔ ∃ a, x = .ok a ∧ (f a).Returns := by
  constructor
  · rintro ⟨b, hb⟩
    obtain ⟨a, ha, hfa⟩ := bind_eq_ok.mp hb
    exact ⟨a, ha, b, hfa⟩
  · rintro ⟨a, rfl, b, hb⟩
    exact ⟨b, hb⟩

theorem returns_ok (a : α) : Returns (Except.ok a : Checked α) := ⟨a, rfl⟩

end TLS13.Lib.Checked
