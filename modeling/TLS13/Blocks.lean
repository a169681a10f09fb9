import TLS13.Wrappers.Extensions

/-! Blocks of extensions through `parse_extensions` and `process_extensions`. The
parser steps over the block twice and looks for its end behind each extension
only, so one or more complete extensions come back as they were and every other
block is read past its end. The number of extensions is kept in eight bits. -/

namespace TLS13

open Lib

/-! ### The offsets of the two passes -/

/-- The counting pass, with the offsets at which its turns start. -/
def countOffsets (data : Bytes) (dataLength : ℕ) : ℕ → ℕ → Checked (List ℕ)
  | 0, _ => .error .loops
  | fuel + 1, iter => do
    let currentLength ← readUint16 data (iter + 2)
    let next := iter + 2 + (2 + currentLength.toNat)
    if dataLength ≤ next then return [iter]
    else do
      let offsets ← countOffsets data dataLength fuel next
      return iter :: offsets

/-- The copying pass, with the offsets at which its turns start. -/
def copyTurns (data : Bytes) : ℕ → ℕ → Checked (List (ℕ × Extension))
  | 0, _ => return []
  | count + 1, iter => do
    let extensionType ← readUint16 data iter
    let extensionDataLength ← readUint16 data (iter + 2)
    let extensionData ← readBytes data (iter + 4) extensionDataLength.toNat
    let rest ← copyTurns data count (iter + 4 + extensionDataLength.toNat)
    return (iter, { extensionType, extensionDataLength, extensionData }) :: rest

/-- Both passes go through the block, and through the same offsets. -/
def SameOffsets (block : Bytes) : Prop :=
  ∃ offsets turns, countOffsets block block.length (block.length + 1) 0 = .ok offsets ∧
    copyTurns block offsets.length 0 = .ok turns ∧ turns.map Prod.fst = offsets

section Passes

variable {data : Bytes} {dataLength : ℕ}

theorem countExtensions_eq_offsets (fuel count iter : ℕ) :
    countExtensions data dataLength fuel count iter = do
      let offsets ← countOffsets data dataLength fuel iter
      return count + offsets.length := by
  induction fuel generalizing count iter with
  | zero => rfl
  | succ fuel ih =>
    rw [countExtensions, countOffsets]
    cases readUint16 data (iter + 2) with
    | error e => rfl
    | ok n =>
      simp only [Checked.bind_ok]
      split
      · rfl
      · rw [ih]
        cases countOffsets data dataLength fuel (iter + 2 + (2 + n.toNat)) with
        | error e => rfl
        | ok offsets =>
          simp only [Checked.bind_ok, Checked.pure_eq, List.length_cons]
          congr 1
          omega

theorem copyExtensions_eq_turns (count iter : ℕ) :
    copyExtensions data count iter = do
      let turns ← copyTurns data count iter
      return turns.map Prod.snd := by
  induction count generalizing iter with
  | zero => rfl
  | succ count ih => simp [copyExtensions, copyTurns, ih, bind_assoc]

theorem countOffsets_succ_eq_ok {fuel iter : ℕ} {offsets : List ℕ}
    (h : countOffsets data dataLength (fuel + 1) iter = .ok offsets) :
    ∃ n, readUint16 data (iter + 2) = .ok n ∧
      ((dataLength ≤ iter + 4 + n.toNat ∧ offsets = [iter]) ∨
        ∃ rest, countOffsets data dataLength fuel (iter + 4 + n.toNat) = .ok rest ∧
          offsets = iter :: rest) := by
  obtain ⟨n, hn, h⟩ := Checked.bind_eq_ok.mp h
  have hnext : iter + 2 + (2 + n.toNat) = iter + 4 + n.toNat := by omega
  simp only [hnext] at h
  refine ⟨n, hn, ?_⟩
  split at h
  · cases h
    exact .inl ⟨‹_›, rfl⟩
  · obtain ⟨rest, hrest, hlast⟩ := Checked.bind_eq_ok.mp h
    cases hlast
    exact .inr ⟨rest, hrest, rfl⟩

theorem copyTurns_succ_eq_ok {count iter : ℕ} {turns : List (ℕ × Extension)}
    (h : copyTurns data (count + 1) iter = .ok turns) :
    ∃ (e : Rfc.Extension) (n : UInt16) (rest : List (ℕ × Extension)),
      readUint16 data (iter + 2) = .ok n ∧
      data.drop iter = e.encode ++ data.drop (iter + 4 + n.toNat) ∧
      copyTurns data count (iter + 4 + n.toNat) = .ok rest ∧
      turns = (iter, Extension.ofRfc e) :: rest := by
  simp only [copyTurns, Checked.bind_eq_ok] at h
  obtain ⟨type, htype, n, hn, d, hd, rest, hrest, hlast⟩ := h
  cases hlast
  obtain ⟨hof, hdrop⟩ := drop_eq_of_turn htype hn hd
  exact ⟨⟨type, d⟩, n, rest, hn, hdrop, hrest, by rw [hof]⟩

/-- A copying pass of as many turns as were counted starts them where they were counted. -/
theorem offsets_of_turns {fuel iter : ℕ} {offsets : List ℕ} {turns : List (ℕ × Extension)}
    (hcount : countOffsets data dataLength fuel iter = .ok offsets)
    (hcopy : copyTurns data offsets.length iter = .ok turns) : turns.map Prod.fst = offsets := by
  induction fuel generalizing iter offsets turns with
  | zero => cases hcount
  | succ fuel ih =>
    obtain ⟨n, hn, ⟨-, rfl⟩ | ⟨offsets', hrec, rfl⟩⟩ := countOffsets_succ_eq_ok hcount
    · obtain ⟨_, _, rest, -, -, hrest, rfl⟩ := copyTurns_succ_eq_ok hcopy
      cases hrest
      rfl
    · obtain ⟨_, n', rest, hn', -, hrest, rfl⟩ := copyTurns_succ_eq_ok hcopy
      cases hn.symm.trans hn'
      rw [List.map_cons, ih hrec hrest]

theorem parseExtensions_eq_ok {ea : ExtensionArray} :
    parseExtensions data dataLength = .ok ea ↔
      ∃ offsets turns, countOffsets data dataLength (data.length + 1) 0 = .ok offsets ∧
        copyTurns data offsets.length 0 = .ok turns ∧
        ea = ⟨UInt8.ofNat offsets.length, turns.map Prod.snd⟩ := by
  simp only [parseExtensions, countExtensions_eq_offsets, copyExtensions_eq_turns, Nat.zero_add,
    Checked.bind_eq_ok, Checked.pure_eq, Except.ok.injEq]
  constructor
  · rintro ⟨_, ⟨offsets, hcount, rfl⟩, _, ⟨turns, hcopy, rfl⟩, rfl⟩
    exact ⟨offsets, turns, hcount, hcopy, rfl⟩
  · rintro ⟨offsets, turns, hcount, hcopy, rfl⟩
    exact ⟨_, ⟨offsets, hcount, rfl⟩, _, ⟨turns, hcopy, rfl⟩, rfl⟩

theorem sameOffsets_of_parse {block : Bytes} {ea : ExtensionArray}
    (h : parseExtensions block block.length = .ok ea) : SameOffsets block := by
  obtain ⟨offsets, turns, hcount, hcopy, -⟩ := parseExtensions_eq_ok.mp h
  exact ⟨offsets, turns, hcount, hcopy, offsets_of_turns hcount hcopy⟩

/-! ### What the parser accepts -/

/-- Passes that return went over one or more complete extensions, the last of
which ends at the end of the block. -/
theorem drop_eq_of_passes {fuel iter : ℕ} {offsets : List ℕ} {turns : List (ℕ × Extension)}
    (hcount : countOffsets data data.length fuel iter = .ok offsets)
    (hcopy : copyTurns data offsets.length iter = .ok turns) :
    ∃ es : List Rfc.Extension, es ≠ [] ∧ offsets.length = es.length ∧
      data.drop iter = Rfc.encodeExtensions es ∧ turns.map Prod.snd = es.map Extension.ofRfc := by
  induction fuel generalizing iter offsets turns with
  | zero => cases hcount
  | succ fuel ih =>
    obtain ⟨n, hn, ⟨hend, rfl⟩ | ⟨offsets', hrec, rfl⟩⟩ := countOffsets_succ_eq_ok hcount
    · obtain ⟨e, n', rest, hn', hdrop, hrest, rfl⟩ := copyTurns_succ_eq_ok hcopy
      cases hn.symm.trans hn'
      cases hrest
      -- the counting pass went as far as the end, the copying pass not beyond it
      have hnil : data.drop (iter + 4 + n.toNat) = [] := List.drop_of_length_le hend
      refine ⟨[e], List.cons_ne_nil _ _, rfl, ?_, rfl⟩
      rw [hdrop, hnil]
      rfl
    · obtain ⟨e, n', rest, hn', hdrop, hrest, rfl⟩ := copyTurns_succ_eq_ok hcopy
      cases hn.symm.trans hn'
      obtain ⟨es, -, hlen, hes, hturns⟩ := ih hrec hrest
      refine ⟨e :: es, List.cons_ne_nil _ _, by simp [hlen], ?_, ?_⟩
      · rw [hdrop, hes]
        rfl
      · rw [List.map_cons, List.map_cons, hturns]

/-- The counting pass ends: every turn that returns steps over four bytes of the
allocation at least, so the next one starts further back. -/
theorem onlyOverReads_countOffsets {fuel iter : ℕ} (hpos : 0 < fuel)
    (hfuel : data.length < fuel + iter) :
    (countOffsets data dataLength fuel iter).OnlyOverReads := by
  induction fuel generalizing iter with
  | zero => exact absurd hpos (lt_irrefl 0)
  | succ fuel ih =>
    refine onlyOverReads_readUint16.bind ?_
    intro n hn
    have hread := congrArg List.length (drop_eq_of_readUint16 hn)
    rw [List.length_append, length_be, List.length_drop, List.length_drop] at hread
    dsimp only
    split
    · exact .ok _
    · exact (ih (by omega) (by omega)).bind fun _ _ => .ok _

theorem onlyOverReads_copyExtensions (count iter : ℕ) :
    (copyExtensions data count iter).OnlyOverReads := by
  induction count generalizing iter with
  | zero => exact .ok _
  | succ count ih =>
    refine onlyOverReads_readUint16.bind fun _ _ => ?_
    refine onlyOverReads_readUint16.bind fun _ _ => ?_
    refine onlyOverReads_readBytes.bind fun _ _ => ?_
    exact (ih _).bind fun _ _ => .ok _

theorem onlyOverReads_parseExtensions : (parseExtensions data dataLength).OnlyOverReads := by
  have hcount : (countExtensions data dataLength (data.length + 1) 0 0).OnlyOverReads := by
    rw [countExtensions_eq_offsets]
    exact (onlyOverReads_countOffsets (Nat.succ_pos _) (by omega)).bind fun _ _ => .ok _
  exact hcount.bind fun _ _ => (onlyOverReads_copyExtensions _ _).bind fun _ _ => .ok _

end Passes

/-- A block that is parsed inside its bounds consists of one or more complete
extensions, and they are what the array holds. -/
theorem parseExtensions_sound {block : Bytes} {ea : ExtensionArray}
    (h : parseExtensions block block.length = .ok ea) :
    ∃ es, es ≠ [] ∧ block = Rfc.encodeExtensions es ∧ ea = ExtensionArray.ofRfc es := by
  obtain ⟨offsets, turns, hcount, hcopy, rfl⟩ := parseExtensions_eq_ok.mp h
  obtain ⟨es, hne, hlen, hblock, hturns⟩ := drop_eq_of_passes hcount hcopy
  refine ⟨es, hne, hblock, ?_⟩
  rw [hlen, hturns, ExtensionArray.ofRfc]

/-! ### The codec -/

/-- The bytes that the entries of an array take. -/
def ExtensionArray.size (ea : ExtensionArray) : ℕ :=
  (ea.array.map fun e => 4 + e.extensionDataLength.toNat).sum

theorem ExtensionArray.size_eq {ea : ExtensionArray}
    (hdata : ∀ e ∈ ea.array, e.extensionData.length = e.extensionDataLength.toNat) :
    ea.size = (Rfc.encodeExtensions ea.toRfc).length := by
  have hsizes : ea.array.map (fun e => 4 + e.extensionDataLength.toNat) =
      ea.toRfc.map fun e => e.encode.length := by
    rw [ExtensionArray.toRfc, List.map_map]
    apply List.map_congr_left
    intro e he
    simp [hdata e he]
  rw [ExtensionArray.size, hsizes, Rfc.encodeExtensions, List.length_flatMap]

theorem ExtensionArray.WellFormed.size_eq {ea : ExtensionArray} (h : ea.WellFormed) :
    ea.size = (Rfc.encodeExtensions ea.toRfc).length :=
  ExtensionArray.size_eq h.data

/-- What the functions make of extensions and of their block. -/
structure Codec (ea : ExtensionArray) (block : Bytes) : Prop where
  processed : processExtensions ea = .ok block
  parsed : parseExtensions block block.length = .ok ea
  length : extensionsLength ea = .ok block.length
  offsets : SameOffsets block

theorem codec_encode {es : List Rfc.Extension} (hne : es ≠ []) (hcount : es.length < 256)
    (hsize : (Rfc.encodeExtensions es).length < 256 ^ 2) :
    Codec (ExtensionArray.ofRfc es) (Rfc.encodeExtensions es) := by
  have hparse := parseExtensions_encode [] hne hsize
  rw [List.append_nil] at hparse
  exact ⟨processExtensions_ofRfc hcount hsize, hparse, extensionsLength_ofRfc hcount hsize,
    sameOffsets_of_parse hparse⟩

/-- One to 255 extensions and the block that holds them: encoding and decoding
are inverse in both directions, `extensions_length` is the length of the block,
and the passes of the parser go through the same offsets. -/
theorem extension_block_codec :
    (∀ ea : ExtensionArray, ea.WellFormed → ea.length ≠ 0 → ea.size ≤ 65535 →
      ∃ block, block.length = ea.size ∧ Codec ea block) ∧
    ∀ (block : Bytes) (es : List Rfc.Extension), Rfc.decodeExtensions block = some es →
      block.length ≤ 65535 → es ≠ [] → es.length ≤ 255 →
        ∃ ea, ea.toRfc = es ∧ Codec ea block := by
  constructor
  · intro ea hwf hne hsize
    have hcount : ea.toRfc.length < 256 := by
      rw [hwf.length_toRfc]
      exact ea.length.toNat_lt
    rw [hwf.size_eq] at hsize ⊢
    refine ⟨Rfc.encodeExtensions ea.toRfc, rfl, ?_⟩
    have hcodec := codec_encode (hwf.toRfc_ne_nil hne) hcount (by omega)
    rwa [hwf.ofRfc_toRfc] at hcodec
  · intro block es hdecode hsize hne hcount
    obtain rfl := Rfc.encode_of_decodeExtensions hdecode
    exact ⟨ExtensionArray.ofRfc es, toRfc_ofRfc es, codec_encode hne (by omega) (by omega)⟩

/-- Two extensions, one of them empty, and their block. -/
theorem extension_block_codec_sample :
    ∃ block, block.length = 9 ∧ Codec ⟨2, [⟨0, 0, []⟩, ⟨51, 1, [7]⟩]⟩ block := by
  refine extension_block_codec.1 ⟨2, [⟨0, 0, []⟩, ⟨51, 1, [7]⟩]⟩ ⟨rfl, ?_⟩ (by decide) (by decide)
  intro e he
  fin_cases he <;> rfl

/-! ### The bounds of the block -/

/-- The parser reads inside its block, makes no extension of an empty one, and
returns nothing for a block whose last extension is cut short. -/
structure StaysInBlock (data : Bytes) (dataLength : ℕ) : Prop where
  /-- On an allocation that ends with the block no read is past its end. -/
  inside : parseExtensions (data.take dataLength) dataLength ≠ .error .overRead
  empty : dataLength = 0 → parseExtensions data dataLength = .ok ⟨0, []⟩
  refused : Rfc.CutShort (data.take dataLength) →
    ∀ ea, parseExtensions data dataLength ≠ .ok ea

/-- The bounds are kept exactly on blocks of one or more complete extensions. -/
theorem staysInBlock_iff {data : Bytes} {dataLength : ℕ} (havailable : dataLength ≤ data.length)
    (h16 : dataLength ≤ 65535) :
    StaysInBlock data dataLength ↔
      ∃ es, es ≠ [] ∧ data.take dataLength = Rfc.encodeExtensions es := by
  have hlength : (data.take dataLength).length = dataLength := List.length_take_of_le havailable
  constructor
  · intro h
    have hinside := h.inside
    obtain ⟨ea, hparse⟩ := onlyOverReads_parseExtensions.returns hinside
    have hwhole : parseExtensions (data.take dataLength) (data.take dataLength).length = .ok ea := by
      rw [hlength]
      exact hparse
    obtain ⟨es, hne, hblock, -⟩ := parseExtensions_sound hwhole
    exact ⟨es, hne, hblock⟩
  · rintro ⟨es, hne, hblock⟩
    have hsize : (Rfc.encodeExtensions es).length = dataLength := by rw [← hblock, hlength]
    have hparse := parseExtensions_encode [] hne (by omega : (Rfc.encodeExtensions es).length < _)
    rw [List.append_nil, hsize, ← hblock] at hparse
    have hpos := Rfc.count_le_length Rfc.Extension.encode
      (fun e => List.length_pos_of_ne_nil e.encode_ne_nil) es
    have hcount := List.length_pos_of_ne_nil hne
    refine ⟨?_, ?_, ?_⟩
    · rw [hparse]
      intro h
      cases h
    · intro h0
      unfold Rfc.encodeExtensions at hsize
      omega
    · intro hshort
      have hnone := (Rfc.decodeExtensions_eq_none_iff (by omega)).mpr hshort
      rw [hblock, Rfc.decodeExtensions_eq (by omega)] at hnone
      cases hnone

/-- One extension of two bytes, with more of the body behind it. -/
theorem staysInBlock_sample : StaysInBlock [0, 51, 0, 2, 7, 8, 9] 6 :=
  (staysInBlock_iff (by decide) (by decide)).mpr ⟨[⟨51, [7, 8]⟩], by decide, rfl⟩

/-- An extension of two bytes in a block that ends after one of them: it is
returned with the byte behind the block. -/
theorem not_staysInBlock_cutShort : ¬ StaysInBlock [0, 51, 0, 2, 7, 8] 5 := by
  intro h
  have hshort : Rfc.CutShort [0, 51, 0, 2, 7] :=
    ⟨[], _, rfl, List.cons_ne_nil _ _, .data 51 2 [7] rfl (by decide)⟩
  exact h.refused hshort ⟨1, [⟨51, 2, [7, 8]⟩]⟩ rfl

/-! ### The number of extensions -/

/-- The length of the array is the number of extensions that were stored, and the
functions that go by the length see all of them. -/
structure SeesAll (ea : ExtensionArray) (count : ℕ) : Prop where
  length : ea.length.toNat = count
  stored : ea.array.length = count
  found : ∀ e ∈ ea.array, getExtension ea e.extensionType =
    .ok (ea.array.find? (·.extensionType = e.extensionType))
  size : extensionsLength ea = .ok ea.size
  encoded : processExtensions ea = writeExtensions ea.array
  freed : freeExtensions ea = .ok (ea.array.map fun e => e.extensionData)

/-- An array that is returned counts what the counting loop found. -/
def KeepsCount (data : Bytes) (dataLength : ℕ) : Prop :=
  ∀ ea, parseExtensions data dataLength = .ok ea →
    ∃ count, countExtensions data dataLength (data.length + 1) 0 0 = .ok count ∧ SeesAll ea count

theorem size_ofRfc {es : List Rfc.Extension} (hsize : (Rfc.encodeExtensions es).length < 256 ^ 2) :
    (ExtensionArray.ofRfc es).size = (Rfc.encodeExtensions es).length := by
  rw [ExtensionArray.size_eq (length_of_mem_ofRfc hsize), toRfc_ofRfc]

theorem seesAll_ofRfc {es : List Rfc.Extension} (hne : es ≠ []) (hcount : es.length < 256)
    (hsize : (Rfc.encodeExtensions es).length < 256 ^ 2) :
    SeesAll (ExtensionArray.ofRfc es) es.length := by
  have hdata : ∀ e ∈ es, e.data.length < 256 ^ 2 := fun e he => Rfc.data_lt_of_mem he hsize
  refine ⟨length_ofRfc hcount, by simp [ExtensionArray.ofRfc], ?_, ?_, ?_, ?_⟩
  · intro e he
    obtain ⟨a, ha, rfl⟩ := List.mem_map.mp he
    have hget := getExtension_ofRfc a.type hne hcount
    cases hfind : es.find? (·.type = a.type) with
    | none =>
      rw [List.find?_eq_none] at hfind
      exact absurd (hfind a ha) (by simp)
    | some b =>
      rw [hfind] at hget
      have hfirst : (ExtensionArray.ofRfc es).array.find? (·.extensionType = a.type) =
          some (Extension.ofRfc b) := getExtension_eq_ok hget
      exact hget.trans (congrArg Except.ok hfirst.symm)
  · rw [extensionsLength_ofRfc hcount hsize, size_ofRfc hsize]
  · rw [processExtensions_ofRfc hcount hsize]
    exact (writeExtensions_ofRfc hdata).symm
  · simp only [freeExtensions, entries_ofRfc hcount, Checked.bind_ok, Checked.pure_eq]
    rfl

/-- What the parser makes of a block in front of any bytes is the array of its
extensions, whose length has eight bits. -/
theorem length_of_keepsCount {es : List Rfc.Extension} {rest : Bytes} (hne : es ≠ [])
    (hsize : (Rfc.encodeExtensions es).length < 256 ^ 2)
    (h : KeepsCount (Rfc.encodeExtensions es ++ rest) (Rfc.encodeExtensions es).length) :
    es.length < 256 := by
  obtain ⟨count, -, hsees⟩ := h _ (parseExtensions_encode rest hne hsize)
  have hstored : es.length = count := by
    rw [← hsees.stored]
    simp [ExtensionArray.ofRfc]
  rw [hstored, ← hsees.length]
  exact UInt8.toNat_lt _

/-- For a block of complete extensions the count is kept exactly up to 255 of them. -/
theorem keepsCount_iff {es : List Rfc.Extension} (rest : Bytes) (hne : es ≠ [])
    (hsize : (Rfc.encodeExtensions es).length ≤ 65535) :
    KeepsCount (Rfc.encodeExtensions es ++ rest) (Rfc.encodeExtensions es).length ↔
      es.length ≤ 255 := by
  constructor
  · intro h
    have hlt := length_of_keepsCount hne (by omega) h
    omega
  · intro hcount ea hparse
    rw [parseExtensions_encode rest hne (by omega)] at hparse
    cases hparse
    have hlength : es.length ≤ (Rfc.encodeExtensions es ++ rest).length + 1 := by
      have hle := Rfc.count_le_length Rfc.Extension.encode
        (fun e => List.length_pos_of_ne_nil e.encode_ne_nil) es
      rw [List.length_append, Rfc.encodeExtensions]
      omega
    have hpass := countExtensions_encode es _ rest _ 0 0 hne hlength
      (fun e he => Rfc.data_lt_of_mem he (by omega)) rfl
    rw [Nat.zero_add, Nat.zero_add] at hpass
    exact ⟨es.length, hpass, seesAll_ofRfc hne (by omega) (by omega)⟩

/-- Two extensions of one type, with a byte behind the block. -/
theorem keepsCount_sample :
    KeepsCount (Rfc.encodeExtensions [⟨51, [7]⟩, ⟨51, []⟩] ++ [0]) 9 :=
  (keepsCount_iff [0] (List.cons_ne_nil _ _) (by decide)).mpr (by decide)

/-- 256 empty extensions are stored in an array of length 0. -/
theorem not_keepsCount_256 :
    ¬ KeepsCount (Rfc.encodeExtensions (List.replicate 256 ⟨0, []⟩))
      (Rfc.encodeExtensions (List.replicate 256 ⟨0, []⟩)).length := by
  have hsize (n : ℕ) : (Rfc.encodeExtensions (List.replicate n ⟨0, []⟩)).length = n * 4 := by
    rw [Rfc.encodeExtensions, List.length_flatMap, List.map_replicate, List.sum_replicate]
    rfl
  have hne : List.replicate 256 (⟨0, []⟩ : Rfc.Extension) ≠ [] := List.cons_ne_nil _ _
  intro h
  have hback : KeepsCount (Rfc.encodeExtensions (List.replicate 256 ⟨0, []⟩) ++ [])
      (Rfc.encodeExtensions (List.replicate 256 ⟨0, []⟩)).length := by
    rw [List.append_nil]
    exact h
  have hlt := length_of_keepsCount hne (by rw [hsize]; decide) hback
  rw [List.length_replicate] at hlt
  omega

end TLS13
