import TLS13.Lib.Bytes

/-! The distinguished encoding rules, as far as signatures need them: lengths,
elements and integers that are not negative. Each has one encoding, and an
element is a prefix of no other, so a sequence of elements is read in one way. -/

namespace TLS13.Lib

theorem eq_of_value_eq {bs cs : Bytes} (hlen : bs.length = cs.length) (h : value bs = value cs) :
    bs = cs := by
  rw [← be_value bs, hlen, h, be_value]

namespace Der

/-! ### Lengths -/

/-- The short form below 128, and the least number of bytes above. -/
inductive IsLength : Bytes → ℕ → Prop
  | short {n : ℕ} : n < 128 → IsLength [UInt8.ofNat n] n
  | long {bs : Bytes} : bs.length < 127 → bs.head? ≠ some 0 → 128 ≤ value bs →
      IsLength (UInt8.ofNat (128 + bs.length) :: bs) (value bs)

theorem pow_le_value {bs : Bytes} (hhead : bs.head? ≠ some 0) (hpos : 0 < value bs) :
    256 ^ (bs.length - 1) ≤ value bs := by
  cases bs with
  | nil => exact absurd hpos (by decide)
  | cons b bs =>
    have hb : 1 ≤ b.toNat := by
      rw [Nat.one_le_iff_ne_zero]
      intro hzero
      apply hhead
      rw [List.head?_cons, UInt8.toNat_inj.mp (show b.toNat = (0 : UInt8).toNat from hzero)]
    have hle : 1 * 256 ^ bs.length ≤ b.toNat * 256 ^ bs.length := Nat.mul_le_mul_right _ hb
    simp only [List.length_cons, Nat.add_sub_cancel, value]
    omega

/-- Strings without a leading zero are as long as their value asks for. -/
theorem length_le_of_value_le {bs cs : Bytes} (hhead : bs.head? ≠ some 0) (hpos : 0 < value bs)
    (h : value bs ≤ value cs) : bs.length ≤ cs.length := by
  by_contra hlt
  have hlow := pow_le_value hhead hpos
  have hhigh := value_lt cs
  have hpow : 256 ^ cs.length ≤ 256 ^ (bs.length - 1) :=
    Nat.pow_le_pow_right (by norm_num) (by omega)
  omega

theorem IsLength.unique {l l' : Bytes} {n : ℕ} (h : IsLength l n) (h' : IsLength l' n) : l = l' := by
  generalize hm : n = m at h'
  cases h with
  | short hlt =>
    cases h' with
    | short _ => rw [hm]
    | long _ _ hge => omega
  | @long bs _ hhead hge =>
    cases h' with
    | short hlt => omega
    | @long cs _ hhead' hge' =>
      have hlen : bs.length = cs.length := le_antisymm
        (length_le_of_value_le hhead (by omega) hm.le)
        (length_le_of_value_le hhead' (by omega) hm.ge)
      rw [eq_of_value_eq hlen hm]

/-- The first byte says which form it is and how many bytes follow. -/
theorem IsLength.prefix_free {l l' x y : Bytes} {n n' : ℕ} (h : IsLength l n) (h' : IsLength l' n')
    (heq : l ++ x = l' ++ y) : n = n' ∧ x = y := by
  cases h with
  | short hlt =>
    cases h' with
    | short hlt' =>
      obtain ⟨hbyte, hrest⟩ := List.cons.inj heq
      have hnat := congrArg UInt8.toNat hbyte
      rw [UInt8.toNat_ofNat', UInt8.toNat_ofNat'] at hnat
      exact ⟨by omega, hrest⟩
    | @long cs hsize _ _ =>
      have hnat := congrArg UInt8.toNat (List.cons.inj heq).1
      rw [UInt8.toNat_ofNat', UInt8.toNat_ofNat'] at hnat
      omega
  | @long bs hsize _ _ =>
    cases h' with
    | short hlt' =>
      have hnat := congrArg UInt8.toNat (List.cons.inj heq).1
      rw [UInt8.toNat_ofNat', UInt8.toNat_ofNat'] at hnat
      omega
    | @long cs hsize' _ _ =>
      obtain ⟨hbyte, hrest⟩ := List.cons.inj heq
      have hnat := congrArg UInt8.toNat hbyte
      rw [UInt8.toNat_ofNat', UInt8.toNat_ofNat'] at hnat
      obtain ⟨rfl, hxy⟩ := List.append_inj hrest (show bs.length = cs.length by omega)
      exact ⟨rfl, hxy⟩

/-! ### Elements -/

/-- A tag, the length of the content, and the content. -/
def IsElement (tag : UInt8) (content e : Bytes) : Prop :=
  ∃ l, IsLength l content.length ∧ e = tag :: (l ++ content)

theorem isElement_short (tag : UInt8) {content : Bytes} (h : content.length < 128) :
    IsElement tag content (tag :: UInt8.ofNat content.length :: content) :=
  ⟨_, .short h, rfl⟩

theorem IsElement.unique {tag : UInt8} {content e e' : Bytes} (h : IsElement tag content e)
    (h' : IsElement tag content e') : e = e' := by
  obtain ⟨l, hl, rfl⟩ := h
  obtain ⟨l', hl', rfl⟩ := h'
  rw [hl.unique hl']

theorem IsElement.prefix_free {tag tag' : UInt8} {content content' e e' x y : Bytes}
    (h : IsElement tag content e) (h' : IsElement tag' content' e') (heq : e ++ x = e' ++ y) :
    content = content' ∧ x = y := by
  obtain ⟨l, hl, rfl⟩ := h
  obtain ⟨l', hl', rfl⟩ := h'
  rw [List.cons_append, List.cons_append, List.append_assoc, List.append_assoc] at heq
  have hrest := (List.cons.inj heq).2
  obtain ⟨hlen, hcontent⟩ := hl.prefix_free hl' hrest
  exact List.append_inj hcontent hlen

theorem IsElement.content_unique {tag tag' : UInt8} {content content' e : Bytes}
    (h : IsElement tag content e) (h' : IsElement tag' content' e) : content = content' :=
  (h.prefix_free h' (show e ++ [] = e ++ [] from rfl)).1

/-! ### Integers -/

/-- The content of an integer that is not negative: the sign bit is clear, and a
leading zero byte is there only to clear it. -/
def Minimal : Bytes → Prop
  | [] => False
  | [b] => b.toNat < 128
  | b :: c :: _ => b.toNat < 128 ∧ (b = 0 → 128 ≤ c.toNat)

theorem Minimal.value_lt {c : Bytes} (h : Minimal c) : value c < 128 * 256 ^ (c.length - 1) := by
  have hsign (b : UInt8) (bs : Bytes) (hb : b.toNat < 128) :
      value (b :: bs) < 128 * 256 ^ bs.length := by
    have hlt := Lib.value_lt bs
    have hle : b.toNat * 256 ^ bs.length ≤ 127 * 256 ^ bs.length :=
      Nat.mul_le_mul_right _ (by omega)
    simp only [value]
    omega
  cases c with
  | nil => exact False.elim h
  | cons b c =>
    cases c with
    | nil => exact hsign b [] h
    | cons c rest => exact hsign b (c :: rest) h.1

/-- With a clear sign bit, two bytes or more are minimal exactly when their value
needs them. -/
theorem minimal_cons_iff {b c : UInt8} {rest : Bytes} (hb : b.toNat < 128) :
    Minimal (b :: c :: rest) ↔ 128 * 256 ^ rest.length ≤ value (b :: c :: rest) := by
  have hlt := Lib.value_lt rest
  have hvalue : value (b :: c :: rest) =
      256 * (b.toNat * 256 ^ rest.length) + (c.toNat * 256 ^ rest.length + value rest) := by
    simp only [value, List.length_cons, pow_succ]
    ring
  rw [hvalue]
  by_cases hzero : b = 0
  · subst hzero
    have hb0 : (0 : UInt8).toNat * 256 ^ rest.length = 0 := Nat.zero_mul _
    rw [hb0]
    constructor
    · intro h
      have hc : 128 * 256 ^ rest.length ≤ c.toNat * 256 ^ rest.length :=
        Nat.mul_le_mul_right _ (h.2 rfl)
      omega
    · intro hle
      refine ⟨hb, fun _ => ?_⟩
      by_contra hc
      have hc' : c.toNat * 256 ^ rest.length ≤ 127 * 256 ^ rest.length :=
        Nat.mul_le_mul_right _ (by omega)
      omega
  · have hpos : 1 ≤ b.toNat := by
      rw [Nat.one_le_iff_ne_zero]
      intro h
      exact hzero (UInt8.toNat_inj.mp h)
    have hle : 1 * 256 ^ rest.length ≤ b.toNat * 256 ^ rest.length := Nat.mul_le_mul_right _ hpos
    constructor
    · intro _
      omega
    · intro _
      exact ⟨hb, fun h => absurd h hzero⟩

theorem Minimal.length_le {c c' : Bytes} (h : Minimal c) (h' : Minimal c')
    (hv : value c ≤ value c') : c.length ≤ c'.length := by
  cases c with
  | nil => exact False.elim h
  | cons b c =>
    cases c with
    | nil =>
      cases c' with
      | nil => exact False.elim h'
      | cons b' c' => simp
    | cons c rest =>
      by_contra hlt
      have hlow := (minimal_cons_iff h.1).mp h
      have hhigh := h'.value_lt
      simp only [List.length_cons, not_le] at hlt
      have hpow : 256 ^ (c'.length - 1) ≤ 256 ^ rest.length :=
        Nat.pow_le_pow_right (by norm_num) (by omega)
      omega

/-- A number has one content. -/
theorem Minimal.unique {c c' : Bytes} (h : Minimal c) (h' : Minimal c') (hv : value c = value c') :
    c = c' :=
  eq_of_value_eq (le_antisymm (h.length_le h' hv.le) (h'.length_le h hv.ge)) hv

/-- The INTEGER of the number `n`. -/
def IsInteger (n : ℕ) (e : Bytes) : Prop := ∃ c, Minimal c ∧ value c = n ∧ IsElement 0x02 c e

theorem IsInteger.unique {n : ℕ} {e e' : Bytes} (h : IsInteger n e) (h' : IsInteger n e') :
    e = e' := by
  obtain ⟨c, hc, rfl, he⟩ := h
  obtain ⟨c', hc', hv, he'⟩ := h'
  obtain rfl := hc'.unique hc hv
  exact he.unique he'

end Der

end TLS13.Lib
