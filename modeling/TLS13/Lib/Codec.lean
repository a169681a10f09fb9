import TLS13.Lib.Bytes

/-! Prefix codecs. A decoder consumes the front of a byte string and returns a
value with what follows it. `Decodes d bs a` says that `d` reads `bs` as `a` in
front of any bytes; such facts compose along a sequence, so the round trip of a
format is assembled field by field. `vec w xs` is the length-prefixed vector of
the presentation language, with a `w`-byte length. -/

namespace TLS13.Lib

abbrev Decoder := StateT Bytes Option

/-- `d` reads `bs` as `a` and leaves whatever follows. -/
def Decodes {α : Type} (d : Decoder α) (bs : Bytes) (a : α) : Prop :=
  ∀ rest, d.run (bs ++ rest) = some (a, rest)

namespace Decodes

variable {α β : Type}

theorem pure (a : α) : Decodes (Pure.pure a) [] a := fun _ => rfl

theorem bind {d : Decoder α} {f : α → Decoder β} {bs cs : Bytes} {a : α} {b : β}
    (hd : Decodes d bs a) (hf : Decodes (f a) cs b) : Decodes (d >>= f) (bs ++ cs) b := by
  intro rest
  rw [StateT.run_bind, List.append_assoc, hd (cs ++ rest)]
  exact hf rest

/-- The last field of a sequence, after which the value is returned. -/
theorem last {d : Decoder α} {f : α → Decoder β} {bs : Bytes} {a : α} {b : β}
    (hd : Decodes d bs a) (hf : f a = Pure.pure b) : Decodes (d >>= f) bs b := by
  intro rest
  rw [StateT.run_bind, hd rest]
  show (f a).run rest = some (b, rest)
  rw [hf]
  rfl

theorem map {d : Decoder α} {bs : Bytes} {a : α} (hd : Decodes d bs a) (f : α → β) :
    Decodes (f <$> d) bs (f a) := by
  intro rest
  simp [StateT.run_map, hd rest]

/-- Two values with one encoding are equal. -/
theorem unique {d : Decoder α} {bs : Bytes} {a a' : α} (h : Decodes d bs a)
    (h' : Decodes d bs a') : a = a' := by
  have hsome := (h []).symm.trans (h' [])
  cases hsome
  rfl

end Decodes

/-! ### Primitive decoders -/

/-- The next `n` bytes. -/
def takeBytes (n : ℕ) : Decoder Bytes := fun bs =>
  if n ≤ bs.length then some (bs.take n, bs.drop n) else none

/-- The next `n` bytes as a block. -/
def takeBlock (n : ℕ) : Decoder (Block n) := fun bs =>
  if h : n ≤ bs.length then some (⟨bs.take n, List.length_take_of_le h⟩, bs.drop n) else none

/-- A `w`-byte big-endian number. -/
def number (w : ℕ) : Decoder ℕ := value <$> takeBytes w

/-- A byte string behind its `w`-byte length. -/
def vec (w : ℕ) (xs : Bytes) : Bytes := be w xs.length ++ xs

def takeVec (w : ℕ) : Decoder Bytes := do
  let n ← number w
  takeBytes n

theorem decodes_takeBytes (xs : Bytes) : Decodes (takeBytes xs.length) xs xs := by
  intro rest
  simp [takeBytes, StateT.run]

theorem decodes_takeBlock {n : ℕ} (b : Block n) : Decodes (takeBlock n) b.val b := by
  obtain ⟨bs, rfl⟩ := b
  intro rest
  simp [takeBlock, StateT.run]

theorem decodes_number {w k : ℕ} (h : k < 256 ^ w) : Decodes (number w) (be w k) k := by
  have hb := (decodes_takeBytes (be w k)).map value
  rw [length_be, value_be_of_lt h] at hb
  exact hb

theorem decodes_takeVec {w : ℕ} {xs : Bytes} (h : xs.length < 256 ^ w) :
    Decodes (takeVec w) (vec w xs) xs :=
  (decodes_number h).bind (decodes_takeBytes xs)

@[simp] theorem length_vec (w : ℕ) (xs : Bytes) : (vec w xs).length = w + xs.length := by
  simp [vec]

/-! ### Whole inputs -/

/-- Decode a whole input, leaving nothing over. -/
def decodeAll {α : Type} (d : Decoder α) (bs : Bytes) : Option α :=
  match d.run bs with
  | some (a, []) => some a
  | _ => none

theorem decodeAll_eq {α : Type} {d : Decoder α} {bs : Bytes} {a : α} (h : Decodes d bs a) :
    decodeAll d bs = some a := by
  have hd := h []
  rw [List.append_nil] at hd
  simp [decodeAll, hd]

/-- Items until the input is used up; every item takes at least one byte. -/
def decodeMany {α : Type} (d : Decoder α) : ℕ → Bytes → Option (List α)
  | _, [] => some []
  | 0, _ :: _ => none
  | fuel + 1, b :: bs => do
    let (a, rest) ← d.run (b :: bs)
    let as ← decodeMany d fuel rest
    return a :: as

theorem decodeMany_eq {α : Type} {d : Decoder α} {enc : α → Bytes} (as : List α)
    (hd : ∀ a ∈ as, Decodes d (enc a) a) (hne : ∀ a, enc a ≠ []) :
    ∀ fuel, (as.flatMap enc).length ≤ fuel → decodeMany d fuel (as.flatMap enc) = some as := by
  induction as with
  | nil => intro fuel _; cases fuel <;> rfl
  | cons a as ih =>
    intro fuel hfuel
    have ha := hd a List.mem_cons_self (as.flatMap enc)
    have hpos : 0 < (enc a).length := List.length_pos_of_ne_nil (hne a)
    have hih := ih fun b hb => hd b (List.mem_cons_of_mem _ hb)
    rw [List.flatMap_cons] at hfuel ⊢
    rw [List.length_append] at hfuel
    obtain ⟨x, xs, hx⟩ := List.exists_cons_of_ne_nil (hne a)
    rw [hx, List.cons_append] at ha ⊢
    obtain ⟨fuel, rfl⟩ : ∃ k, fuel = k + 1 := ⟨fuel - 1, by omega⟩
    simp [decodeMany, ha, hih fuel (by omega)]

/-! ### What an accepted input is -/

/-- Every input that `d` accepts is the encoding of its value, with the rest behind it. -/
def Exact {α : Type} (d : Decoder α) (enc : α → Bytes) : Prop :=
  ∀ {bs : Bytes} {a : α} {rest : Bytes}, d.run bs = some (a, rest) → bs = enc a ++ rest

/-- A sequence accepts an input when its parts do, one after the other. -/
theorem run_bind_eq_some {α β : Type} {d : Decoder α} {f : α → Decoder β} {bs : Bytes}
    {v : β × Bytes} :
    (d >>= f).run bs = some v ↔
      ∃ a rest, d.run bs = some (a, rest) ∧ (f a).run rest = some v := by
  rw [StateT.run_bind, Option.bind_eq_bind, Option.bind_eq_some_iff]
  constructor
  · rintro ⟨⟨a, rest⟩, hd, hf⟩
    exact ⟨a, rest, hd, hf⟩
  · rintro ⟨a, rest, hd, hf⟩
    exact ⟨(a, rest), hd, hf⟩

theorem run_pure_eq_some {α : Type} {a b : α} {bs rest : Bytes} :
    (pure a : Decoder α).run bs = some (b, rest) ↔ a = b ∧ bs = rest := by
  simp [StateT.run_pure]

theorem run_lift_eq_some {α : Type} {x : Option α} {a : α} {bs rest : Bytes} :
    (StateT.lift x : Decoder α).run bs = some (a, rest) ↔ x = some a ∧ bs = rest := by
  cases x <;> simp [StateT.lift, StateT.run]

theorem takeBytes_eq_some {n : ℕ} {bs xs rest : Bytes} (h : (takeBytes n).run bs = some (xs, rest)) :
    xs.length = n ∧ bs = xs ++ rest := by
  simp only [takeBytes, StateT.run] at h
  split at h
  · cases h
    exact ⟨List.length_take_of_le ‹_›, (List.take_append_drop n bs).symm⟩
  · cases h

theorem number_eq_some {w n : ℕ} {bs rest : Bytes} :
    (number w).run bs = some (n, rest) ↔ n < 256 ^ w ∧ bs = be w n ++ rest := by
  constructor
  · intro h
    rw [number, StateT.run_map, Option.map_eq_map, Option.map_eq_some_iff] at h
    obtain ⟨⟨xs, rest'⟩, htake, hn⟩ := h
    obtain ⟨rfl, rfl⟩ := Prod.mk.inj hn
    obtain ⟨hlen, hbs⟩ := takeBytes_eq_some htake
    rw [← hlen, be_value]
    exact ⟨value_lt xs, hbs⟩
  · rintro ⟨hlt, rfl⟩
    exact decodes_number hlt rest

theorem exact_number (w : ℕ) : Exact (number w) (be w) := by
  intro bs k rest h
  exact (number_eq_some.mp h).2

theorem exact_takeVec (w : ℕ) : Exact (takeVec w) (vec w) := by
  intro bs xs rest h
  obtain ⟨n, mid, hn, hxs⟩ := run_bind_eq_some.mp h
  obtain ⟨hlen, hmid⟩ := takeBytes_eq_some hxs
  rw [exact_number w hn, hmid, vec, hlen, List.append_assoc]

/-! ### What a refused input is -/

theorem run_bind_eq_none {α β : Type} {d : Decoder α} {f : α → Decoder β} {bs : Bytes} :
    (d >>= f).run bs = none ↔
      d.run bs = none ∨ ∃ a rest, d.run bs = some (a, rest) ∧ (f a).run rest = none := by
  rw [StateT.run_bind, Option.bind_eq_bind, Option.bind_eq_none_iff]
  cases d.run bs <;> simp [Prod.ext_iff]

theorem takeBytes_eq_none {n : ℕ} {bs : Bytes} :
    (takeBytes n).run bs = none ↔ bs.length < n := by
  simp [takeBytes, StateT.run]

theorem number_eq_none {w : ℕ} {bs : Bytes} : (number w).run bs = none ↔ bs.length < w := by
  rw [number, StateT.run_map, Option.map_eq_map, Option.map_eq_none_iff, takeBytes_eq_none]

/-- A vector is refused when its length is not there, or its bytes are not. -/
theorem takeVec_eq_none {w : ℕ} {bs : Bytes} :
    (takeVec w).run bs = none ↔
      bs.length < w ∨ ∃ n rest, n < 256 ^ w ∧ bs = be w n ++ rest ∧ rest.length < n := by
  simp only [takeVec, run_bind_eq_none, number_eq_none, number_eq_some, takeBytes_eq_none, and_assoc]

/-! ### Many items -/

theorem decodeMany_exact {α : Type} {d : Decoder α} {enc : α → Bytes} (hd : Exact d enc) :
    ∀ (fuel : ℕ) {bs : Bytes} {as : List α}, decodeMany d fuel bs = some as →
      bs = as.flatMap enc := by
  intro fuel
  induction fuel with
  | zero =>
    intro bs as h
    cases bs with
    | nil =>
      cases h
      rfl
    | cons b bs => cases h
  | succ fuel ih =>
    intro bs as h
    cases bs with
    | nil =>
      cases h
      rfl
    | cons b bs =>
      simp only [decodeMany, Option.bind_eq_bind, Option.bind_eq_some_iff] at h
      obtain ⟨⟨a, rest⟩, ha, as', has, hlast⟩ := h
      cases hlast
      have hrest : rest = as'.flatMap enc := ih has
      rw [hd ha, hrest, List.flatMap_cons]

/-- An input that is refused is a run of items, and then bytes that do not start with one. -/
theorem decodeMany_eq_none {α : Type} {d : Decoder α} {enc : α → Bytes} (hd : Exact d enc)
    (hne : ∀ a, enc a ≠ []) :
    ∀ (fuel : ℕ) {bs : Bytes}, bs.length ≤ fuel → decodeMany d fuel bs = none →
      ∃ (as : List α) (tail : Bytes),
        bs = as.flatMap enc ++ tail ∧ tail ≠ [] ∧ d.run tail = none := by
  intro fuel
  induction fuel with
  | zero =>
    intro bs hfuel h
    obtain rfl : bs = [] := List.eq_nil_of_length_eq_zero (by omega)
    cases h
  | succ fuel ih =>
    intro bs hfuel h
    cases bs with
    | nil => cases h
    | cons b bs =>
      cases hrun : d.run (b :: bs) with
      | none => exact ⟨[], b :: bs, rfl, List.cons_ne_nil _ _, hrun⟩
      | some v =>
        obtain ⟨a, rest⟩ := v
        have hbs := hd hrun
        have hpos : 0 < (enc a).length := List.length_pos_of_ne_nil (hne a)
        have hlen := congrArg List.length hbs
        rw [List.length_append] at hlen
        have hrest : decodeMany d fuel rest = none := by
          cases hmany : decodeMany d fuel rest with
          | none => rfl
          | some as => simp [decodeMany, hrun, hmany] at h
        obtain ⟨as, tail, rfl, htail, hnone⟩ := ih (by omega) hrest
        exact ⟨a :: as, tail, by rw [hbs, List.flatMap_cons, List.append_assoc], htail, hnone⟩

/-- Items in front of bytes that do not start with one are refused with them. -/
theorem decodeMany_append_eq_none {α : Type} {d : Decoder α} {enc : α → Bytes} (as : List α)
    {tail : Bytes} (hd : ∀ a ∈ as, Decodes d (enc a) a) (hne : ∀ a, enc a ≠ []) (htail : tail ≠ [])
    (hnone : d.run tail = none) : ∀ fuel, decodeMany d fuel (as.flatMap enc ++ tail) = none := by
  induction as with
  | nil =>
    intro fuel
    obtain ⟨x, xs, rfl⟩ := List.exists_cons_of_ne_nil htail
    cases fuel with
    | zero => rfl
    | succ fuel => simp [decodeMany, hnone]
  | cons a as ih =>
    intro fuel
    have ha := hd a List.mem_cons_self (as.flatMap enc ++ tail)
    have hih := ih fun b hb => hd b (List.mem_cons_of_mem _ hb)
    obtain ⟨x, xs, hx⟩ := List.exists_cons_of_ne_nil (hne a)
    rw [List.flatMap_cons, List.append_assoc]
    rw [hx, List.cons_append] at ha ⊢
    cases fuel with
    | zero => rfl
    | succ fuel => simp [decodeMany, ha, hih fuel]

/-- Two encodings of the same size for each item agree on a list only item by item. -/
theorem flatMap_eq_iff {α : Type} {enc enc' : α → Bytes} {as : List α}
    (hlen : ∀ a, (enc a).length = (enc' a).length) :
    as.flatMap enc = as.flatMap enc' ↔ ∀ a ∈ as, enc a = enc' a := by
  induction as with
  | nil => simp
  | cons a as ih =>
    rw [List.flatMap_cons, List.flatMap_cons, List.forall_mem_cons, ← ih]
    constructor
    · exact fun h => List.append_inj h (hlen a)
    · rintro ⟨ha, has⟩
      rw [ha, has]

theorem decodeAll_exact {α : Type} {d : Decoder α} {enc : α → Bytes} (hd : Exact d enc) {bs : Bytes}
    {a : α} (h : decodeAll d bs = some a) : bs = enc a := by
  unfold decodeAll at h
  split at h
  · rename_i a' hrun
    cases h
    rw [hd hrun, List.append_nil]
  · cases h

end TLS13.Lib
