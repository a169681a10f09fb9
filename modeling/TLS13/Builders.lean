import TLS13.Wrappers.Extensions

/-! Extension arrays built one call at a time. Each builder grows the array by one
entry and writes the last one, so a sequence of calls leaves the extensions it
describes, in the order of the calls, as long as their number fits into eight bits. -/

namespace TLS13

open Lib

/-! ### Sequences of calls -/

/-- A call of a builder, with as many bytes behind its pointer as it states. A key
is short enough for the length of the entry around it. -/
inductive BuilderCall
  | extension (type length : UInt16) (data : Bytes) (size : data.length = length.toNat)
  | keyShare (group : UInt16) (keyExchange : Bytes) (keyExchangeLength : UInt16)
      (size : keyExchange.length = keyExchangeLength.toNat)
      (fits : keyExchangeLength.toNat ≤ 65531)
  | supportedVersions

namespace BuilderCall

def apply (ea : ExtensionArray) : BuilderCall → Checked ExtensionArray
  | extension type length data _ => addExtension ea type length data
  | keyShare group keyExchange keyExchangeLength _ _ =>
      addKeyShare ea group keyExchange keyExchangeLength
  | supportedVersions => addSupportedVersions ea

/-- The extension that the call describes. -/
def described : BuilderCall → Rfc.Extension
  | extension type _ data _ => ⟨type, data⟩
  | keyShare group keyExchange keyExchangeLength _ _ =>
      ⟨keyShareExtensionType, be 2 group.toNat ++ be 2 keyExchangeLength.toNat ++ keyExchange⟩
  | supportedVersions => ⟨supportedVersionsExtensionType, [0x03, 0x04]⟩

theorem length_described (c : BuilderCall) : c.described.data.length < 256 ^ 2 := by
  cases c with
  | extension type length data size =>
    have hlt := length.toNat_lt
    simp only [described, size]
    omega
  | keyShare group keyExchange keyExchangeLength size fits =>
    simp only [described, List.length_append, length_be, size]
    omega
  | supportedVersions => decide

/-- One call appends the extension it describes. -/
theorem apply_ofRfc {es : List Rfc.Extension} (hlt : es.length + 1 < 256) (c : BuilderCall) :
    apply (ExtensionArray.ofRfc es) c = .ok (ExtensionArray.ofRfc (es ++ [c.described])) := by
  cases c with
  | extension type length data size => exact addExtension_ofRfc hlt type size
  | keyShare group keyExchange keyExchangeLength size fits =>
    have hdata : keyShareData group keyExchange =
        be 2 group.toNat ++ be 2 keyExchangeLength.toNat ++ keyExchange := by
      rw [keyShareData, vec, size, List.append_assoc]
    rw [apply, addKeyShare_ofRfc hlt group size, hdata, described]
  | supportedVersions => exact addSupportedVersions_ofRfc hlt

end BuilderCall

/-- The calls, one after the other, from the empty array. -/
def build (calls : List BuilderCall) : Checked ExtensionArray :=
  calls.foldlM BuilderCall.apply ⟨0, []⟩

/-- Calls append what they describe to what the array holds. -/
theorem foldlM_apply {es : List Rfc.Extension} {calls : List BuilderCall}
    (hcount : es.length + calls.length < 256) :
    calls.foldlM BuilderCall.apply (ExtensionArray.ofRfc es) =
      .ok (ExtensionArray.ofRfc (es ++ calls.map BuilderCall.described)) := by
  induction calls generalizing es with
  | nil => simp
  | cons c calls ih =>
    rw [List.length_cons] at hcount
    have hrest : (es ++ [c.described]).length + calls.length < 256 := by
      rw [List.length_append, List.length_singleton]
      omega
    rw [List.foldlM_cons, BuilderCall.apply_ofRfc (by omega) c, Checked.bind_ok, ih hrest,
      List.map_cons, List.append_assoc, List.singleton_append]

theorem build_eq {calls : List BuilderCall} (hcount : calls.length < 256) :
    build calls = .ok (ExtensionArray.ofRfc (calls.map BuilderCall.described)) :=
  foldlM_apply (show ([] : List Rfc.Extension).length + calls.length < 256 by simpa using hcount)

/-- The next call behind 255 others reallocates the array to nothing. -/
theorem growExtensions_full {ea : ExtensionArray} (hlen : ea.length = 255) (hne : ea.array ≠ []) :
    growExtensions ea 1 = .error .assertFailed := by
  have hzero : ea.length + UInt8.ofNat 1 = 0 := by
    rw [hlen]
    decide
  rw [growExtensions, hzero, assert, if_neg (by simpa using hne)]
  rfl

theorem BuilderCall.apply_full {ea : ExtensionArray} (hlen : ea.length = 255) (hne : ea.array ≠ [])
    (c : BuilderCall) : apply ea c = .error .assertFailed := by
  have hgrow := growExtensions_full hlen hne
  cases c with
  | extension type length data size => rw [apply, addExtension, hgrow, Checked.bind_error]
  | keyShare group keyExchange keyExchangeLength size fits =>
    rw [apply, addKeyShare, hgrow, Checked.bind_error]
  | supportedVersions =>
    rw [apply, addSupportedVersions, addExtension, hgrow, Checked.bind_error]

/-- More calls than that end at the assertion of `grow_extensions`. -/
theorem build_full {calls : List BuilderCall} (hcount : 255 < calls.length) :
    build calls = .error .assertFailed := by
  have htake : (calls.take 255).length = 255 := List.length_take_of_le hcount.le
  obtain ⟨c, rest, hdrop⟩ : ∃ c rest, calls.drop 255 = c :: rest := by
    rw [List.drop_eq_getElem_cons hcount]
    exact ⟨_, _, rfl⟩
  have hfirst : build (calls.take 255) =
      .ok (ExtensionArray.ofRfc ((calls.take 255).map BuilderCall.described)) := build_eq (by omega)
  have hlen : (ExtensionArray.ofRfc ((calls.take 255).map BuilderCall.described)).length = 255 := by
    rw [ExtensionArray.ofRfc, List.length_map, htake]
    rfl
  have hne : (ExtensionArray.ofRfc ((calls.take 255).map BuilderCall.described)).array ≠ [] := by
    apply List.ne_nil_of_length_pos
    rw [ExtensionArray.ofRfc, List.length_map, List.length_map, htake]
    norm_num
  rw [build, ← List.take_append_drop 255 calls, List.foldlM_append, hdrop]
  rw [build] at hfirst
  rw [hfirst, Checked.bind_ok, List.foldlM_cons, BuilderCall.apply_full hlen hne, Checked.bind_error]

/-! ### What the array holds and how it is written -/

/-- The array that the calls build. -/
structure Builds (calls : List BuilderCall) (ea : ExtensionArray) : Prop where
  count : ea.length.toNat = calls.length
  array : ea.array = calls.map fun c => Extension.ofRfc c.described
  /-- The entries of the first calls are not changed by the calls after them. -/
  earlier : ∀ before after, calls = before ++ after →
    ∃ ea', build before = .ok ea' ∧ ea'.array = ea.array.take before.length
  /-- `extensions_length` counts what `process_extensions` writes, and a block of such
  a length is parsed back. -/
  written : ∃ block, processExtensions ea = .ok block ∧ extensionsLength ea = .ok block.length ∧
    (block.length ≤ 65535 → calls ≠ [] → parseExtensions block block.length = .ok ea)

/-- At most 255 calls build the array of the extensions they describe. -/
theorem builds_of_calls {calls : List BuilderCall} (hcount : calls.length ≤ 255) :
    ∃ ea, build calls = .ok ea ∧ Builds calls ea := by
  have hdata : ∀ e ∈ calls.map BuilderCall.described, e.data.length < 256 ^ 2 := by
    intro e he
    obtain ⟨c, -, rfl⟩ := List.mem_map.mp he
    exact c.length_described
  have hlt : (calls.map BuilderCall.described).length < 256 := by
    rw [List.length_map]
    omega
  refine ⟨_, build_eq (by omega), ?_, ?_, ?_, _, processExtensions_of_data hlt hdata,
    extensionsLength_of_data hlt hdata, ?_⟩
  · rw [length_ofRfc hlt, List.length_map]
  · rw [ExtensionArray.ofRfc, List.map_map]
    rfl
  · rintro before after rfl
    rw [List.length_append] at hcount
    refine ⟨_, build_eq (by omega), ?_⟩
    simp [ExtensionArray.ofRfc]
  · intro hsize hne
    have hparse := parseExtensions_encode [] (fun h => hne (List.map_eq_nil_iff.mp h))
      (by omega : (Rfc.encodeExtensions (calls.map BuilderCall.described)).length < 256 ^ 2)
    rwa [List.append_nil] at hparse

/-- A version list, a key share of one byte and an empty extension. -/
theorem builds_of_calls_sample :
    ∃ ea, build [.supportedVersions, .keyShare 29 [7] 1 rfl (by decide), .extension 0 0 [] rfl] =
      .ok ea ∧ Builds [.supportedVersions, .keyShare 29 [7] 1 rfl (by decide),
        .extension 0 0 [] rfl] ea :=
  builds_of_calls (by decide)

end TLS13
