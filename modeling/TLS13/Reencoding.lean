import TLS13.Blocks

/-! What an extension array holds after a parse, whatever the bytes and the length
that were given, and what is written of it again. The parser takes as few whole
extensions as reach the length; the array keeps all of them and counts them in
eight bits, so the encoder writes the first of them up to the count modulo 256. -/

namespace TLS13

open Lib

/-! ### The passes with any length -/

/-- `es` are as few extensions as reach `n` bytes: they do, and without the last one
they do not, unless there is no other. -/
structure Reaches (es : List Rfc.Extension) (n : ℕ) : Prop where
  ne_nil : es ≠ []
  reaches : n ≤ (Rfc.encodeExtensions es).length
  least : es.dropLast = [] ∨ (Rfc.encodeExtensions es.dropLast).length < n

theorem Reaches.single {e : Rfc.Extension} {n : ℕ} (h : n ≤ 4 + e.data.length) :
    Reaches [e] n := by
  refine ⟨List.cons_ne_nil _ _, ?_, .inl rfl⟩
  simpa [Rfc.encodeExtensions, Rfc.Extension.length_encode] using h

theorem Reaches.cons {e : Rfc.Extension} {es : List Rfc.Extension} {n : ℕ}
    (hlt : 4 + e.data.length < n) (h : Reaches es (n - (4 + e.data.length))) :
    Reaches (e :: es) n := by
  have hlen (as : List Rfc.Extension) : (Rfc.encodeExtensions (e :: as)).length =
      4 + e.data.length + (Rfc.encodeExtensions as).length := by
    rw [Rfc.encodeExtensions, List.flatMap_cons, List.length_append, Rfc.Extension.length_encode,
      Rfc.encodeExtensions]
  have hreaches := h.reaches
  refine ⟨List.cons_ne_nil _ _, by rw [hlen]; omega, .inr ?_⟩
  rw [List.dropLast_cons_of_ne_nil h.ne_nil, hlen]
  rcases h.least with hnil | hleast
  · rw [hnil]
    simpa [Rfc.encodeExtensions] using hlt
  · omega

section Passes

variable {data : Bytes} {dataLength fuel iter : ℕ}

theorem countOffsets_turn {offsets : List ℕ}
    (h : countOffsets data dataLength (fuel + 1) iter = .ok offsets) :
    ∃ n, readUint16 data (iter + 2) = .ok n ∧
      ((dataLength ≤ iter + 4 + n.toNat ∧ offsets = [iter]) ∨
        (iter + 4 + n.toNat < dataLength ∧ ∃ rest,
          countOffsets data dataLength fuel (iter + 4 + n.toNat) = .ok rest ∧
            offsets = iter :: rest)) := by
  obtain ⟨n, hn, h⟩ := Checked.bind_eq_ok.mp h
  have hnext : iter + 2 + (2 + n.toNat) = iter + 4 + n.toNat := by omega
  simp only [hnext] at h
  refine ⟨n, hn, ?_⟩
  split at h
  · cases h
    exact .inl ⟨‹_›, rfl⟩
  · obtain ⟨rest, hrest, hlast⟩ := Checked.bind_eq_ok.mp h
    cases hlast
    exact .inr ⟨not_le.mp ‹_›, rest, hrest, rfl⟩

/-- A turn of the copying pass copies an extension with as many bytes of data as the
counting pass stepped over. -/
theorem copyTurns_turn {count : ℕ} {n : UInt16} {turns : List (ℕ × Extension)}
    (hn : readUint16 data (iter + 2) = .ok n) (h : copyTurns data (count + 1) iter = .ok turns) :
    ∃ (e : Rfc.Extension) (rest : List (ℕ × Extension)), e.data.length = n.toNat ∧
      data.drop iter = e.encode ++ data.drop (iter + 4 + n.toNat) ∧
      copyTurns data count (iter + 4 + n.toNat) = .ok rest ∧
      turns = (iter, Extension.ofRfc e) :: rest := by
  simp only [copyTurns, Checked.bind_eq_ok] at h
  obtain ⟨type, htype, n', hn', d, hd, rest, hrest, hlast⟩ := h
  cases hlast
  cases hn.symm.trans hn'
  obtain ⟨hof, hdrop⟩ := drop_eq_of_turn htype hn hd
  exact ⟨⟨type, d⟩, rest, (drop_eq_of_readBytes hd).1, hdrop, hrest, by rw [hof]⟩

theorem reaches_of_passes {offsets : List ℕ} {turns : List (ℕ × Extension)}
    (hcount : countOffsets data dataLength fuel iter = .ok offsets)
    (hcopy : copyTurns data offsets.length iter = .ok turns) :
    ∃ (es : List Rfc.Extension) (rest : Bytes), Reaches es (dataLength - iter) ∧
      offsets.length = es.length ∧ data.drop iter = Rfc.encodeExtensions es ++ rest ∧
      turns.map Prod.snd = es.map Extension.ofRfc ∧ ∀ e ∈ es, e.data.length < 256 ^ 2 := by
  induction fuel generalizing iter offsets turns with
  | zero => cases hcount
  | succ fuel ih =>
    obtain ⟨n, hn, ⟨hend, rfl⟩ | ⟨hmore, offsets', hrec, rfl⟩⟩ := countOffsets_turn hcount
    · obtain ⟨e, rest, hlen, hdrop, hrest, rfl⟩ := copyTurns_turn hn hcopy
      cases hrest
      have hsize : e.data.length < 256 ^ 2 := hlen ▸ n.toNat_lt
      refine ⟨[e], data.drop (iter + 4 + n.toNat), .single (by omega), rfl, ?_, rfl, by simpa⟩
      rw [hdrop, Rfc.encodeExtensions, List.flatMap_cons, List.flatMap_nil, List.append_nil]
    · obtain ⟨e, rest, hlen, hdrop, hrest, rfl⟩ := copyTurns_turn hn hcopy
      have hsize : e.data.length < 256 ^ 2 := hlen ▸ n.toNat_lt
      obtain ⟨es, tail, hreaches, hcountEs, htail, hturns, hes⟩ := ih hrec hrest
      have hleft : dataLength - iter - (4 + e.data.length) = dataLength - (iter + 4 + n.toNat) := by
        omega
      refine ⟨e :: es, tail, .cons (by omega) (hleft ▸ hreaches), ?_, ?_, ?_, ?_⟩
      · rw [List.length_cons, List.length_cons, hcountEs]
      · rw [hdrop, htail, Rfc.encodeExtensions, Rfc.encodeExtensions, List.flatMap_cons,
          List.append_assoc]
      · rw [List.map_cons, List.map_cons, hturns]
      · exact List.forall_mem_cons.mpr ⟨hsize, hes⟩

end Passes

theorem parseExtensions_reaches {data : Bytes} {dataLength : ℕ} {ea : ExtensionArray}
    (h : parseExtensions data dataLength = .ok ea) :
    ∃ (es : List Rfc.Extension) (rest : Bytes), Reaches es dataLength ∧
      data = Rfc.encodeExtensions es ++ rest ∧ ea = ExtensionArray.ofRfc es ∧
      ∀ e ∈ es, e.data.length < 256 ^ 2 := by
  obtain ⟨offsets, turns, hcount, hcopy, rfl⟩ := parseExtensions_eq_ok.mp h
  obtain ⟨es, rest, hreaches, hlen, hdata, hturns, hes⟩ := reaches_of_passes hcount hcopy
  refine ⟨es, rest, hreaches, hdata, ?_, hes⟩
  rw [hlen, hturns, ExtensionArray.ofRfc]

/-! ### Writing it again -/

/-- The loops visit the entries up to the count modulo 256. -/
theorem entries_ofRfc_mod (es : List Rfc.Extension) :
    (ExtensionArray.ofRfc es).entries =
      (ExtensionArray.ofRfc (es.take (es.length % 256))).entries := by
  have hle : es.length % 256 ≤ es.length := Nat.mod_le _ _
  have htake : (es.take (es.length % 256)).length = es.length % 256 := List.length_take_of_le hle
  have hlt : (es.take (es.length % 256)).length < 256 := by
    rw [htake]
    exact Nat.mod_lt _ (by norm_num)
  have hlength : (ExtensionArray.ofRfc es).length.toNat = es.length % 256 := UInt8.toNat_ofNat'
  have hsize : (ExtensionArray.ofRfc es).array.length = es.length := List.length_map _
  rw [entries_ofRfc hlt, ExtensionArray.entries, hlength, hsize, if_pos hle, List.map_take]
  rfl

/-- Length and encoding look at no other entry. -/
theorem processExtensions_congr {ea ea' : ExtensionArray} (h : ea.entries = ea'.entries) :
    extensionsLength ea = extensionsLength ea' ∧ processExtensions ea = processExtensions ea' := by
  have hlength : extensionsLength ea = extensionsLength ea' := by
    rw [extensionsLength, extensionsLength, h]
  refine ⟨hlength, ?_⟩
  rw [processExtensions, processExtensions, h, hlength]

/-- Any bytes with any length: what is parsed of them is the shortest run of whole
extensions that reaches the length, and is encoded again up to their number modulo
256, with the length of that. -/
theorem processExtensions_of_parse {data : Bytes} {dataLength : ℕ} {ea : ExtensionArray}
    (h : parseExtensions data dataLength = .ok ea) :
    ∃ (es : List Rfc.Extension) (rest : Bytes), Reaches es dataLength ∧
      data = Rfc.encodeExtensions es ++ rest ∧ ea.toRfc = es ∧ ea.length = UInt8.ofNat es.length ∧
      extensionsLength ea =
        .ok (Rfc.encodeExtensions (es.take (es.length % 256))).length ∧
      processExtensions ea = .ok (Rfc.encodeExtensions (es.take (es.length % 256))) := by
  obtain ⟨es, rest, hreaches, hdata, rfl, hes⟩ := parseExtensions_reaches h
  obtain ⟨hlength, hprocess⟩ := processExtensions_congr (entries_ofRfc_mod es)
  have htake : (es.take (es.length % 256)).length < 256 := by
    rw [List.length_take]
    omega
  have hmem : ∀ e ∈ es.take (es.length % 256), e.data.length < 256 ^ 2 :=
    fun e he => hes e (List.mem_of_mem_take he)
  refine ⟨es, rest, hreaches, hdata, toRfc_ofRfc es, rfl, ?_, ?_⟩
  · rw [hlength, extensionsLength_of_data htake hmem]
  · rw [hprocess, processExtensions_of_data htake hmem]

/-- Two extensions, of which the second reaches beyond the length that was given. -/
theorem processExtensions_of_parse_sample :
    ∃ ea : ExtensionArray, parseExtensions [0, 43, 0, 0, 0, 51, 0, 1, 7, 9] 6 = .ok ea ∧
      processExtensions ea = .ok [0, 43, 0, 0, 0, 51, 0, 1, 7] := by
  have hparse : parseExtensions [0, 43, 0, 0, 0, 51, 0, 1, 7, 9] 6 =
      .ok ⟨2, [⟨43, 0, []⟩, ⟨51, 1, [7]⟩]⟩ := rfl
  refine ⟨_, hparse, ?_⟩
  obtain ⟨es, rest, -, -, hes, -, -, hprocess⟩ := processExtensions_of_parse hparse
  rw [hprocess, ← hes]
  rfl

end TLS13
