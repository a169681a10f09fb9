import TLS13.Wrappers.Extensions

/-! The two searches of `wrappers/extensions.c`. `get_extension` is bounded by the
array only, so it is a search for the first match where there is one. The walk
over the key shares finds the first X25519 entry of every list that has one; its
test for the end of a list looks at the offset in front of a key. -/

namespace TLS13

open Lib

/-! ### The first extension of a type -/

section Search

variable {ea : ExtensionArray} {type : UInt16}

def ExtensionArray.FirstOfType (ea : ExtensionArray) (type : UInt16) (e : Extension) : Prop :=
  ∃ i < ea.length.toNat, ea.array[i]? = some e ∧ e.extensionType = type ∧
    ∀ j < i, ∀ a, ea.array[j]? = some a → a.extensionType ≠ type

/-- The search returns the first match, or `NULL` when there is none, and looks at
no entry from `ea.length` on. -/
structure FirstMatch (ea : ExtensionArray) (type : UInt16) : Prop where
  /-- In an allocation that ends with the last entry it comes to an end. -/
  inside : (getExtension { ea with array := ea.array.take ea.length.toNat } type).Returns
  found : ∀ e, ea.FirstOfType type e → getExtension ea type = .ok (some e)
  absent : (∀ i < ea.length.toNat, ∀ e, ea.array[i]? = some e → e.extensionType ≠ type) →
    getExtension ea type = .ok none

theorem findExtension_of_find {es : List Extension} {e : Extension}
    (h : es.find? (·.extensionType = type) = some e) : findExtension type es = .ok (some e) := by
  induction es with
  | nil => cases h
  | cons a es ih =>
    rw [findExtension]
    by_cases ha : a.extensionType = type
    · rw [List.find?_cons_of_pos (by simpa using ha)] at h
      cases h
      rw [if_pos ha]
      rfl
    · rw [List.find?_cons_of_neg (by simpa using ha)] at h
      rw [if_neg ha, ih h]

/-- The loop has no way to return `NULL`. -/
theorem findExtension_ne_none (es : List Extension) : findExtension type es ≠ .ok none := by
  induction es with
  | nil =>
    intro h
    cases h
  | cons a es ih =>
    rw [findExtension]
    split
    · intro h
      cases h
    · exact ih

theorem findExtension_returns_iff {es : List Extension} :
    (findExtension type es).Returns ↔ ∃ e ∈ es, e.extensionType = type := by
  constructor
  · rintro ⟨found, h⟩
    have hfind := findExtension_eq_ok h
    cases found with
    | none => exact absurd h (findExtension_ne_none es)
    | some e => exact ⟨e, List.mem_of_find?_eq_some hfind, by simpa using List.find?_some hfind⟩
  · rintro ⟨e, he, htype⟩
    cases hfind : es.find? (·.extensionType = type) with
    | none =>
      rw [List.find?_eq_none] at hfind
      exact absurd htype (by simpa using hfind e he)
    | some a => exact ⟨some a, findExtension_of_find hfind⟩

theorem getExtension_of_first {ex : Extension}
    (h : (ea.array.take ea.length.toNat).find? (·.extensionType = type) = some ex) :
    getExtension ea type = .ok (some ex) := by
  have hne : ea.length ≠ 0 := by
    intro h0
    rw [h0] at h
    cases h
  have hwhole : ea.array.find? (·.extensionType = type) = some ex := by
    rw [← List.take_append_drop ea.length.toNat ea.array, List.find?_append, h]
    rfl
  rw [getExtension, if_neg hne, findExtension_of_find hwhole]

theorem ExtensionArray.FirstOfType.find {e : Extension} (h : ea.FirstOfType type e) :
    (ea.array.take ea.length.toNat).find? (·.extensionType = type) = some e := by
  obtain ⟨i, hi, he, htype, hfirst⟩ := h
  have htake {j : ℕ} (hj : j ≤ i) : (ea.array.take ea.length.toNat)[j]? = ea.array[j]? := by
    rw [List.getElem?_take, if_pos (by omega)]
  have hget := (htake le_rfl).trans he
  obtain ⟨hlt, hgetElem⟩ := List.getElem?_eq_some_iff.mp hget
  refine List.find?_eq_some_iff_getElem.mpr ⟨by simpa using htype, i, hlt, hgetElem, ?_⟩
  intro j hj
  have hjget := (htake hj.le).symm.trans (List.getElem?_eq_getElem (by omega))
  simpa using hfirst j hj _ hjget

/-- The search is a search for the first match exactly when the array is empty or
has an entry of the type. -/
theorem firstMatch_iff (ea : ExtensionArray) (type : UInt16) :
    FirstMatch ea type ↔
      ea.length = 0 ∨ ∃ e ∈ ea.array.take ea.length.toNat, e.extensionType = type := by
  constructor
  · intro h
    have hinside := h.inside
    unfold getExtension at hinside
    by_cases h0 : ea.length = 0
    · exact .inl h0
    · rw [if_neg h0] at hinside
      exact .inr (findExtension_returns_iff.mp hinside)
  · rintro (h0 | ⟨e, he, htype⟩)
    · have hnull (array : List Extension) : getExtension ⟨ea.length, array⟩ type = .ok none := by
        rw [getExtension, if_pos h0]
        rfl
      refine ⟨⟨none, hnull _⟩, ?_, fun _ => hnull _⟩
      rintro e ⟨i, hi, -⟩
      rw [h0] at hi
      exact absurd hi (Nat.not_lt_zero i)
    · refine ⟨?_, fun a ha => getExtension_of_first ha.find, ?_⟩
      · unfold getExtension
        split
        · exact ⟨none, rfl⟩
        · exact findExtension_returns_iff.mpr ⟨e, he, htype⟩
      · intro habsent
        obtain ⟨i, hi⟩ := List.mem_iff_getElem?.mp he
        rw [List.getElem?_take] at hi
        split at hi
        · exact absurd htype (habsent i ‹_› e hi)
        · cases hi

/-- One extension of another type. -/
theorem not_firstMatch_absent : ¬ FirstMatch ⟨1, [⟨43, 2, [3, 4]⟩]⟩ keyShareExtensionType := by
  intro h
  obtain ⟨found, hfound⟩ := h.inside
  cases hfound

end Search

/-! ### Lists with an X25519 entry -/

/-- From a list whose first X25519 entry has a key of 32 bytes that key is read, and
no byte outside the extension. -/
theorem getX25519KeyShare_first {ea : ExtensionArray} {ex : Extension} {l : Rfc.ClientShares}
    {s : Rfc.KeyShareEntry} {key : Block 32}
    (hfirst : (ea.array.take ea.length.toNat).find? (·.extensionType = keyShareExtensionType) =
      some ex)
    (hdata : ex.extensionData = l.encode) (hentry : l.firstX25519 = some s)
    (hkey : s.key = key.val) : getX25519KeyShare ea = .ok key :=
  (getX25519KeyShare_list (getExtension_of_first hfirst) hdata key).mpr ⟨s, hentry, hkey⟩

/-- A P-256 entry without a key and an X25519 entry, behind another extension. -/
theorem getX25519KeyShare_first_sample :
    getX25519KeyShare ⟨2, [⟨43, 0, []⟩,
      ⟨51, 42, [0, 40, 0, 23, 0, 0, 0, 29, 0, 32] ++ List.replicate 32 7⟩]⟩ =
        .ok ⟨List.replicate 32 7, rfl⟩ :=
  getX25519KeyShare_first (l := ⟨[⟨23, []⟩, ⟨29, List.replicate 32 7⟩], by decide⟩)
    (s := ⟨29, List.replicate 32 7⟩) rfl rfl rfl rfl

/-! ### Lists without an X25519 entry -/

/-- From `iter` on, the walk reads groups and lengths in front of `bound` only and
comes to the branch for a list without X25519. -/
inductive FailsBelow (data : Bytes) (length : UInt16) (bound : ℕ) : ℕ → Prop
  | fails {iter : ℕ} {group keLen : UInt16} (hbound : iter + 4 ≤ bound)
      (hgroup : readUint16 data iter = .ok group) (hlen : readUint16 data (iter + 2) = .ok keLen)
      (hother : group ≠ namedGroupX25519) (hend : length.toNat ≤ iter + 4 - 2) :
      FailsBelow data length bound iter
  | skips {iter : ℕ} {group keLen : UInt16} (hbound : iter + 4 ≤ bound)
      (hgroup : readUint16 data iter = .ok group) (hlen : readUint16 data (iter + 2) = .ok keLen)
      (hother : group ≠ namedGroupX25519) (hmore : ¬ length.toNat ≤ iter + 4 - 2)
      (hnext : FailsBelow data length bound (iter + 4 + keLen.toNat)) :
      FailsBelow data length bound iter

theorem FailsBelow.walk {data : Bytes} {length : UInt16} {bound iter : ℕ}
    (h : FailsBelow data length bound iter) :
    ∀ {fuel : ℕ}, data.length < fuel + iter →
      walkKeyShares data length fuel iter = .error .assertFailed := by
  have hread {off : ℕ} {n : UInt16} (hn : readUint16 data off = .ok n) :
      off + 2 ≤ data.length := by
    have hlen := congrArg List.length (drop_eq_of_readUint16 hn)
    rw [List.length_append, length_be, List.length_drop, List.length_drop] at hlen
    omega
  induction h with
  | fails _ hgroup hlen hother hend =>
    intro fuel hfuel
    have hle := hread hgroup
    obtain ⟨fuel, rfl⟩ : ∃ k, fuel = k + 1 := ⟨fuel - 1, by omega⟩
    simp only [walkKeyShares, hgroup, hlen, Checked.bind_ok, if_pos hother, if_pos hend,
      Checked.throw_eq, Checked.bind_error]
  | skips _ hgroup hlen hother hmore _ ih =>
    intro fuel hfuel
    have hle := hread hgroup
    obtain ⟨fuel, rfl⟩ : ∃ k, fuel = k + 1 := ⟨fuel - 1, by omega⟩
    simp only [walkKeyShares, hgroup, hlen, Checked.bind_ok, if_pos hother, if_neg hmore]
    exact ih (by omega)

theorem failsBelow_iff {entries : List Rfc.KeyShareEntry} {data : Bytes} {length : UInt16}
    {iter : ℕ} (hiter : 2 ≤ iter) (hother : ∀ s ∈ entries, s.group ≠ namedGroupX25519)
    (hlt : ∀ s ∈ entries, s.key.length < 256 ^ 2)
    (hdata : data.drop iter = entries.flatMap Rfc.KeyShareEntry.encode)
    (hend : iter + (entries.flatMap Rfc.KeyShareEntry.encode).length = 2 + length.toNat) :
    FailsBelow data length (2 + length.toNat) iter ↔
      ∃ s, entries.getLast? = some s ∧ s.key = [] := by
  induction entries generalizing iter with
  | nil =>
    have hread : readUint16 data iter = .error .overRead := by
      simp only [readUint16, loadUint16, readByte, hdata]
      rfl
    constructor
    · intro h
      cases h with
      | fails _ hgroup => simp [hread] at hgroup
      | skips _ hgroup => simp [hread] at hgroup
    · rintro ⟨s, hs, -⟩
      cases hs
  | cons s entries ih =>
    have hs : s.key.length < 256 ^ 2 := hlt s List.mem_cons_self
    have hlen := toNat_ofNat_uint16 hs
    have htest := endTest_iff hiter hend
    rw [List.flatMap_cons] at hdata hend
    obtain ⟨hgroup, hkeLen, hkey⟩ := drop_keyShareEntry hdata hs
    rw [List.length_append, Rfc.KeyShareEntry.length_encode] at hend
    by_cases hfires : length.toNat ≤ iter + 4 - 2
    · obtain ⟨hempty, rfl⟩ := htest.mp hfires
      exact iff_of_true (.fails (by omega) hgroup hkeLen (hother s List.mem_cons_self) hfires)
        ⟨s, rfl, hempty⟩
    · have hrest := ih (by omega) (fun a ha => hother a (List.mem_cons_of_mem _ ha))
        (fun a ha => hlt a (List.mem_cons_of_mem _ ha)) (drop_past hkey rfl) (by omega)
      have hstep : FailsBelow data length (2 + length.toNat) iter ↔
          FailsBelow data length (2 + length.toNat) (iter + 4 + s.key.length) := by
        constructor
        · intro h
          cases h with
          | fails _ _ _ _ hend' => exact absurd hend' hfires
          | skips _ _ hkeLen' _ _ hnext =>
            cases hkeLen.symm.trans hkeLen'
            rwa [hlen] at hnext
        · intro h
          rw [← hlen] at h
          exact .skips (by omega) hgroup hkeLen (hother s List.mem_cons_self) hfires h
      rw [hstep, hrest]
      cases entries with
      | nil =>
        -- the only entry has a key, and behind it there is nothing to walk over
        simpa using htest.not.mp hfires
      | cons s' entries => rw [List.getLast?_cons_cons]

/-- The walk over the first `key_share` extension sees the end of the list: no
group and no length is read from there on, and the process stops at the assertion
for a list without X25519. -/
structure DetectsEnd (ea : ExtensionArray) : Prop where
  walk : ∃ ex length, getExtension ea keyShareExtensionType = .ok (some ex) ∧
    readUint16 ex.extensionData 0 = .ok length ∧
    FailsBelow ex.extensionData length (2 + length.toNat) 2
  stops : getX25519KeyShare ea = .error .assertFailed

/-- A list without X25519 is seen to end exactly when its last entry has an empty key. -/
theorem detectsEnd_iff {ea : ExtensionArray} {ex : Extension} {l : Rfc.ClientShares}
    (hfirst : (ea.array.take ea.length.toNat).find? (·.extensionType = keyShareExtensionType) =
      some ex)
    (hdata : ex.extensionData = l.encode) (hnone : l.firstX25519 = none) :
    DetectsEnd ea ↔ ∃ s, l.entries.getLast? = some s ∧ s.key = [] := by
  have hget := getExtension_of_first hfirst
  have hlen := toNat_ofNat_uint16 l.size_lt
  have h0 : ex.extensionData.drop 0 =
      be 2 (UInt16.ofNat (l.entries.flatMap Rfc.KeyShareEntry.encode).length).toNat ++
        l.entries.flatMap Rfc.KeyShareEntry.encode := by
    rw [hlen, hdata]
    rfl
  have h2 : ex.extensionData.drop 2 = l.entries.flatMap Rfc.KeyShareEntry.encode :=
    drop_past (n := 2) h0 (by simp)
  have hlength := readUint16_eq h0
  have hother : ∀ s ∈ l.entries, s.group ≠ namedGroupX25519 := by
    intro s hs
    rw [Rfc.ClientShares.firstX25519, List.find?_eq_none] at hnone
    simpa using hnone s hs
  have hiff := failsBelow_iff le_rfl hother l.key_lt h2 (by rw [hlen])
  constructor
  · rintro ⟨⟨ex', length, hget', hlength', hwalk⟩, -⟩
    rw [hget] at hget'
    cases hget'
    rw [hlength] at hlength'
    cases hlength'
    exact hiff.mp hwalk
  · intro hlast
    have hwalk := hiff.mpr hlast
    refine ⟨⟨ex, _, hget, hlength, hwalk⟩, ?_⟩
    simp only [getX25519KeyShare, hget, hlength, Checked.bind_ok]
    exact hwalk.walk (by omega)

/-- A P-256 entry with a key and one without. -/
theorem detectsEnd_sample : DetectsEnd ⟨1, [⟨51, 11, [0, 9, 0, 23, 0, 1, 7, 0, 24, 0, 0]⟩]⟩ :=
  (detectsEnd_iff (l := ⟨[⟨23, [7]⟩, ⟨24, []⟩], by decide⟩) rfl rfl rfl).mpr ⟨⟨24, []⟩, rfl, rfl⟩

/-- One P-256 entry: the walk goes on behind its key. -/
theorem not_detectsEnd_p256 : ¬ DetectsEnd ⟨1, [⟨51, 7, [0, 5, 0, 23, 0, 1, 7]⟩]⟩ := by
  intro h
  cases h.stops

end TLS13
