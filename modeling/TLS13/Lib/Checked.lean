import TLS13.Lib.Bytes

/-! Checked memory for pointer programs. A pointer into an allocation is the
allocation together with an offset; every read names both and faults when it
would touch a byte past the end. A fault ends the computation, so a result
`.ok` is the statement that no access left its allocation, no assertion failed
and no loop ran forever. -/

namespace TLS13.Lib

/-- The ways a computation stops without returning. -/
inductive Fault
  | overRead
  | overWrite
  | uninitialised
  | nullDeref
  | assertFailed
  | loops
  deriving DecidableEq, Repr

abbrev Checked := Except Fault

namespace Checked

variable {α β : Type}

@[simp] theorem bind_ok (a : α) (f : α → Checked β) : ((Except.ok a : Checked α) >>= f) = f a := rfl

@[simp] theorem bind_error (e : Fault) (f : α → Checked β) :
    ((Except.error e : Checked α) >>= f) = .error e := rfl

@[simp] theorem pure_eq (a : α) : (pure a : Checked α) = .ok a := rfl

@[simp] theorem throw_eq (e : Fault) : (throw e : Checked α) = .error e := rfl

/-- A sequence returns exactly when its first part does and its rest does. -/
theorem bind_eq_ok {x : Checked α} {f : α → Checked β} {b : β} :
    x >>= f = .ok b ↔ ∃ a, x = .ok a ∧ f a = .ok b := by
  cases x <;> simp

/-- A part that is skipped only where there is nothing to it. -/
theorem ite_eq_ok {p : Prop} [Decidable p] {x : Checked Bytes} {xs : Bytes} (hx : x = .ok xs)
    (hskip : ¬ p → xs = []) : (if p then x else .ok []) = .ok xs := by
  by_cases hp : p
  · rw [if_pos hp, hx]
  · rw [if_neg hp, hskip hp]

/-- The computation returns. -/
def Returns (x : Checked α) : Prop := ∃ a, x = .ok a

/-- The computation returns, or stops at a read past the end of an allocation. -/
def OnlyOverReads (x : Checked α) : Prop := ∀ e, x = .error e → e = .overRead

namespace OnlyOverReads

theorem ok (a : α) : OnlyOverReads (Except.ok a : Checked α) := by
  intro e h
  cases h

theorem bind {x : Checked α} {f : α → Checked β} (hx : x.OnlyOverReads)
    (hf : ∀ a, x = .ok a → (f a).OnlyOverReads) : (x >>= f).OnlyOverReads := by
  cases x with
  | ok a => exact hf a rfl
  | error e =>
    intro e' h
    cases h
    exact hx e rfl

theorem returns {x : Checked α} (hx : x.OnlyOverReads) (h : x ≠ .error .overRead) : x.Returns := by
  cases x with
  | ok a => exact ⟨a, rfl⟩
  | error e => exact absurd (congrArg Except.error (hx e rfl)) h

end OnlyOverReads

end Checked

/-- `assert(p)`. -/
def assert (p : Prop) [Decidable p] : Checked Unit := if p then .ok () else .error .assertFailed

@[simp] theorem assert_of {p : Prop} [Decidable p] (h : p) : assert p = .ok () := if_pos h

theorem assert_eq_ok {p : Prop} [Decidable p] {u : Unit} : assert p = .ok u ↔ p := by
  by_cases h : p <;> simp [assert, h]

/-! ### Reads -/

/-- Read `n` bytes at offset `off` of the allocation `mem`. -/
def readBytes (mem : Bytes) (off n : ℕ) : Checked Bytes :=
  if n ≤ (mem.drop off).length then .ok ((mem.drop off).take n) else .error .overRead

/-- Read one byte. -/
def readByte (mem : Bytes) (off : ℕ) : Checked UInt8 :=
  match mem.drop off with
  | b :: _ => .ok b
  | [] => .error .overRead

/-- Read `n` bytes into a buffer of that size. -/
def readBlock (mem : Bytes) (off n : ℕ) : Checked (Block n) :=
  if h : n ≤ (mem.drop off).length then
    .ok ⟨(mem.drop off).take n, by rw [List.length_take]; omega⟩
  else .error .overRead

section Reads

variable {mem xs rest : Bytes} {off n : ℕ}

theorem readBytes_eq (h : mem.drop off = xs ++ rest) (hn : n = xs.length) :
    readBytes mem off n = .ok xs := by
  subst hn
  simp [readBytes, h]

@[simp] theorem readBytes_self (mem : Bytes) : readBytes mem 0 mem.length = .ok mem := by
  simp [readBytes]

theorem readByte_eq {b : UInt8} (h : mem.drop off = b :: rest) : readByte mem off = .ok b := by
  simp [readByte, h]

theorem readBlock_eq (b : Block n) (h : mem.drop off = b.val ++ rest) :
    readBlock mem off n = .ok b := by
  obtain ⟨bs, rfl⟩ := b
  simp [readBlock, h]

/-- Past a part that was read, the rest of the allocation follows. -/
theorem drop_past (h : mem.drop off = xs ++ rest) (hn : n = xs.length) :
    mem.drop (off + n) = rest := by
  rw [← List.drop_drop, h, hn, List.drop_left]

/-- An allocation that goes on for `n` bytes, split behind them. -/
theorem exists_drop_eq_append (h : off + n ≤ mem.length) :
    ∃ xs, xs.length = n ∧ mem.drop off = xs ++ mem.drop (off + n) := by
  refine ⟨(mem.drop off).take n, List.length_take_of_le (by rw [List.length_drop]; omega), ?_⟩
  rw [← List.drop_drop, List.take_append_drop]

theorem readBytes_eq_ok :
    readBytes mem off n = .ok xs ↔ n ≤ mem.length - off ∧ xs = (mem.drop off).take n := by
  simp only [readBytes, List.length_drop]
  split <;> simp_all [eq_comm]

theorem readByte_eq_ok {b : UInt8} :
    readByte mem off = .ok b ↔ ∃ rest, mem.drop off = b :: rest := by
  unfold readByte
  cases mem.drop off <;> simp

theorem readBlock_eq_ok {b : Block n} :
    readBlock mem off n = .ok b ↔ n ≤ mem.length - off ∧ b.val = (mem.drop off).take n := by
  simp only [readBlock, List.length_drop]
  split <;> simp_all [Subtype.ext_iff, eq_comm]

/-- What a successful read says about the bytes from `off` on. -/
theorem drop_eq_of_readBlock {b : Block n} (h : readBlock mem off n = .ok b) :
    mem.drop off = b.val ++ mem.drop (off + n) := by
  obtain ⟨-, hb⟩ := readBlock_eq_ok.mp h
  rw [hb, ← List.drop_drop, List.take_append_drop]

theorem drop_eq_of_readByte {b : UInt8} (h : readByte mem off = .ok b) :
    mem.drop off = b :: mem.drop (off + 1) := by
  obtain ⟨rest, hr⟩ := readByte_eq_ok.mp h
  rw [← List.drop_drop, hr]
  rfl

theorem drop_eq_of_readBytes (h : readBytes mem off n = .ok xs) :
    xs.length = n ∧ mem.drop off = xs ++ mem.drop (off + n) := by
  obtain ⟨hle, rfl⟩ := readBytes_eq_ok.mp h
  refine ⟨List.length_take_of_le (by rw [List.length_drop]; exact hle), ?_⟩
  rw [← List.drop_drop, List.take_append_drop]

theorem onlyOverReads_readBytes : (readBytes mem off n).OnlyOverReads := by
  intro e h
  unfold readBytes at h
  split at h
  · cases h
  · cases h
    rfl

theorem onlyOverReads_readByte : (readByte mem off).OnlyOverReads := by
  intro e h
  unfold readByte at h
  split at h
  · cases h
  · cases h
    rfl

end Reads

/-! ### Writes -/

/-- The size of a buffer whose length is an `int`. There is no memory for a negative
one, and `fault` is what the null pointer leads to. -/
def bufferSize (length : UInt32) (fault : Fault) : Checked ℕ :=
  if length.toNat < 2 ^ 31 then .ok length.toNat else .error fault

theorem bufferSize_eq {length : UInt32} {size : ℕ} (fault : Fault) (h : length.toNat = size)
    (hlt : size < 2 ^ 31) : bufferSize length fault = .ok size := by
  subst h
  exact if_pos hlt

/-- The contents of a buffer of `size` bytes after `bs` was written to it from
its start: more bytes than it holds run past its end, fewer leave a part of it
that was never written. -/
def fill (size : ℕ) (bs : Bytes) : Checked Bytes :=
  if bs.length = size then .ok bs
  else if size < bs.length then .error .overWrite
  else .error .uninitialised

theorem fill_eq {size : ℕ} {bs : Bytes} (h : bs.length = size) : fill size bs = .ok bs := if_pos h

theorem length_of_fill {size : ℕ} {bs arr : Bytes} (h : fill size bs = .ok arr) :
    arr.length = size := by
  unfold fill at h
  split at h
  case isTrue hlength =>
    obtain rfl := Except.ok.inj h
    exact hlength
  case isFalse => split at h <;> cases h

end TLS13.Lib
