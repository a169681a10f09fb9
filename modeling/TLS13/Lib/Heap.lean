import Mathlib.Tactic

/-! Programs that allocate. A heap knows the blocks in use; giving back a block
that is not in use is an error of the program, whether it was given back before
or never allocated. `Follows` relates such a program to a plain computation: they
return together, fault together, and the program leaves a stated set of blocks in
use. Its rules go along the program, with the blocks in use as the precondition. -/

namespace TLS13.Lib

/-- A block, by a name that no other block has, and its size. -/
structure Allocation where
  name : ℕ
  size : ℕ
  deriving DecidableEq

/-- The blocks in use. No two have one name, and names from `next` on are new. -/
structure Heap where
  live : Multiset Allocation
  next : ℕ
  fresh : ∀ a ∈ live, a.name < next
  unique : (live.map Allocation.name).Nodup

namespace Heap

/-- The block that the next allocation of `size` bytes returns. -/
def newBlock (h : Heap) (size : ℕ) : Allocation := ⟨h.next, size⟩

theorem next_notMem (h : Heap) : h.next ∉ h.live.map Allocation.name := by
  intro hmem
  obtain ⟨a, ha, hname⟩ := Multiset.mem_map.mp hmem
  exact absurd (h.fresh a ha) (hname ▸ lt_irrefl _)

def malloc (h : Heap) (size : ℕ) : Heap where
  live := h.newBlock size ::ₘ h.live
  next := h.next + 1
  fresh a ha := by
    rcases Multiset.mem_cons.mp ha with rfl | ha
    · exact Nat.lt_succ_self _
    · exact (h.fresh a ha).trans (Nat.lt_succ_self _)
  unique := by
    rw [Multiset.map_cons, Multiset.nodup_cons]
    exact ⟨h.next_notMem, h.unique⟩

def free (h : Heap) (a : Allocation) : Heap where
  live := h.live.erase a
  next := h.next
  fresh b hb := h.fresh b (Multiset.mem_of_mem_erase hb)
  unique := Multiset.nodup_of_le (Multiset.map_le_map (Multiset.erase_le a h.live)) h.unique

end Heap

/-- Why an allocating program stops: a fault of its own, or a block given back
that is not in use. -/
inductive Trap (ε : Type)
  | fault (e : ε)
  | badFree
  deriving DecidableEq

abbrev Allocating (ε : Type) := StateT Heap (Except (Trap ε))

variable {ε α β γ δ : Type}

def malloc (size : ℕ) : Allocating ε Allocation := fun h => .ok (h.newBlock size, h.malloc size)

def free (a : Allocation) : Allocating ε Unit := fun h =>
  if a ∈ h.live then .ok ((), h.free a) else .error .badFree

/-- `free` of a pointer, which does nothing with the null pointer. -/
def freePointer : Option Allocation → Allocating ε Unit
  | none => pure ()
  | some a => free a

/-- A computation that leaves the heap alone. -/
def plain (x : Except ε α) : Allocating ε α := fun h =>
  match x with
  | .ok a => .ok (a, h)
  | .error e => .error (.fault e)

/-- With the blocks `F` in use, the program returns and faults as `x` does, and
`Q` holds of the two values and of the blocks in use at the end. -/
def Follows (m : Allocating ε β) (F : Multiset Allocation) (x : Except ε α)
    (Q : α → β → Multiset Allocation → Prop) : Prop :=
  ∀ h : Heap, h.live = F →
    match x with
    | .ok a => ∃ b h', m.run h = .ok (b, h') ∧ Q a b h'.live
    | .error e => m.run h = .error (.fault e)

namespace Follows

variable {F G : Multiset Allocation} {Q Q' : α → β → Multiset Allocation → Prop}

theorem pure {a : α} {b : β} (h : Q a b F) : Follows (Pure.pure b) F (.ok a : Except ε α) Q := by
  rintro heap rfl
  exact ⟨b, heap, rfl, h⟩

theorem mono {m : Allocating ε β} {x : Except ε α} (h : Follows m F x Q)
    (hQ : ∀ {a b G}, x = .ok a → Q a b G → Q' a b G) : Follows m F x Q' := by
  intro heap hF
  have hrun := h heap hF
  cases x with
  | error e => exact hrun
  | ok a =>
    obtain ⟨b, heap', hm, hpost⟩ := hrun
    exact ⟨b, heap', hm, hQ rfl hpost⟩

/-- The two go on together. -/
theorem bind {m : Allocating ε β} {f : β → Allocating ε δ} {x : Except ε α} {g : α → Except ε γ}
    {R : γ → δ → Multiset Allocation → Prop} (h : Follows m F x Q)
    (hf : ∀ a b G, x = .ok a → Q a b G → Follows (f b) G (g a) R) :
    Follows (m >>= f) F (x >>= g) R := by
  intro heap hF
  have hrun := h heap hF
  cases x with
  | error e =>
    show (m >>= f).run heap = .error (.fault e)
    rw [StateT.run_bind, hrun]
    rfl
  | ok a =>
    obtain ⟨b, heap', hm, hpost⟩ := hrun
    have hrest := hf a b heap'.live rfl hpost heap' rfl
    show match g a with
      | .ok c => ∃ d h', (m >>= f).run heap = .ok (d, h') ∧ R c d h'.live
      | .error e => (m >>= f).run heap = .error (.fault e)
    have hbind : (m >>= f).run heap = (f b).run heap' := by
      rw [StateT.run_bind, hm]
      rfl
    rw [hbind]
    exact hrest

/-- The last step of the computation, after which the program goes on alone. -/
theorem bind_last {m : Allocating ε β} {f : β → Allocating ε δ} {x : Except ε α}
    {R : α → δ → Multiset Allocation → Prop} (h : Follows m F x Q)
    (hf : ∀ a b G, x = .ok a → Q a b G → Follows (f b) G (.ok a) R) :
    Follows (m >>= f) F x R := by
  have hbind := bind (g := fun a => .ok a) h hf
  cases x <;> exact hbind

theorem map {m : Allocating ε β} {x : Except ε α} {f : β → δ} {g : α → γ}
    {R : γ → δ → Multiset Allocation → Prop} (h : Follows m F x Q)
    (hR : ∀ a b G, x = .ok a → Q a b G → R (g a) (f b) G) : Follows (f <$> m) F (g <$> x) R := by
  rw [map_eq_pure_bind, map_eq_pure_bind]
  exact bind h fun a b G hx hQ => pure (hR a b G hx hQ)

theorem map_right {m : Allocating ε β} {x : Except ε α} {f : β → δ}
    {R : α → δ → Multiset Allocation → Prop} (h : Follows m F x Q)
    (hR : ∀ a b G, x = .ok a → Q a b G → R a (f b) G) : Follows (f <$> m) F x R := by
  rw [map_eq_pure_bind]
  exact bind_last h fun a b G hx hQ => pure (hR a b G hx hQ)

/-- A step that both make. -/
theorem plain_bind {x : Except ε α} {f : α → Allocating ε δ} {g : α → Except ε γ}
    {R : γ → δ → Multiset Allocation → Prop} (hf : ∀ a, x = .ok a → Follows (f a) F (g a) R) :
    Follows (plain x >>= f) F (x >>= g) R := by
  refine bind (Q := fun a b G => a = b ∧ G = F) ?_ ?_
  · rintro heap rfl
    cases x with
    | error e => rfl
    | ok a => exact ⟨a, heap, rfl, rfl, rfl⟩
  · rintro a _ _ hx ⟨rfl, rfl⟩
    exact hf a hx

/-- A step that both make, the last one of the computation. -/
theorem plain_last {x : Except ε α} {f : α → Allocating ε δ}
    {R : α → δ → Multiset Allocation → Prop} (hf : ∀ a, x = .ok a → Follows (f a) F (.ok a) R) :
    Follows (plain x >>= f) F x R := by
  have h := plain_bind (g := fun a => .ok a) hf
  cases x <;> exact h

/-- A step of the program that the computation does not have. -/
theorem before {m : Allocating ε β} {f : β → Allocating ε δ} {x : Except ε γ} {Q : Unit → β →
    Multiset Allocation → Prop} {R : γ → δ → Multiset Allocation → Prop}
    (h : Follows m F (.ok () : Except ε Unit) Q)
    (hf : ∀ b G, Q () b G → Follows (f b) G x R) : Follows (m >>= f) F x R :=
  bind (g := fun _ => x) h fun _ b G _ hQ => hf b G hQ

theorem malloc_bind {size : ℕ} {f : Allocation → Allocating ε δ} {x : Except ε γ}
    {R : γ → δ → Multiset Allocation → Prop}
    (hf : ∀ a, a.size = size → Follows (f a) ({a} + F) x R) :
    Follows (malloc size >>= f) F x R := by
  refine before (Q := fun _ a G => a.size = size ∧ G = {a} + F) ?_ ?_
  · rintro heap rfl
    exact ⟨_, _, rfl, rfl, (Multiset.singleton_add _ _).symm⟩
  · rintro a _ ⟨ha, rfl⟩
    exact hf a ha

theorem free_last {a : Allocation} {R : Unit → Unit → Multiset Allocation → Prop}
    (hF : F = {a} + G) (h : R () () G) : Follows (free a) F (.ok () : Except ε Unit) R := by
  rintro heap rfl
  have hmem : a ∈ heap.live := by
    rw [hF, Multiset.singleton_add]
    exact Multiset.mem_cons_self a G
  have hlive : (heap.free a).live = G := by
    show heap.live.erase a = G
    rw [hF, Multiset.singleton_add, Multiset.erase_cons_head]
  exact ⟨(), heap.free a, if_pos hmem, hlive.symm ▸ h⟩

theorem free_bind {a : Allocation} {f : Unit → Allocating ε δ} {x : Except ε γ}
    {R : γ → δ → Multiset Allocation → Prop} (hF : F = {a} + G) (hf : Follows (f ()) G x R) :
    Follows (free a >>= f) F x R := by
  refine before (Q := fun _ _ G' => G' = G) (free_last hF rfl) ?_
  rintro _ _ rfl
  exact hf

end Follows

end TLS13.Lib
