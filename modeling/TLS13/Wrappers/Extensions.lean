import TLS13.Rfc.Messages
import TLS13.Util

/-! Extension arrays, `wrappers/extensions.c`. The parser makes two passes over
its block, one that counts and one that copies. The searches are bounded by the
allocation only: `get_extension` compares nothing with its index, and the walk
over the key shares tests for the end of the list in the middle of an entry. -/

namespace TLS13

open Lib

/-! ### Parsing -/

/-- The counting pass. The end of the block is tested after an extension was
stepped over, so the first one is entered even in an empty block. -/
def countExtensions (data : Bytes) (dataLength : ℕ) : ℕ → ℕ → ℕ → Checked ℕ
  | 0, _, _ => .error .loops
  | fuel + 1, count, iter => do
    let currentLength ← readUint16 data (iter + 2)
    let next := iter + 2 + (2 + currentLength.toNat)
    if dataLength ≤ next then return count + 1
    else countExtensions data dataLength fuel (count + 1) next

/-- The copying pass over `count` extensions. -/
def copyExtensions (data : Bytes) : ℕ → ℕ → Checked (List Extension)
  | 0, _ => return []
  | count + 1, iter => do
    let extensionType ← readUint16 data iter
    let extensionDataLength ← readUint16 data (iter + 2)
    let extensionData ← readBytes data (iter + 4) extensionDataLength.toNat
    let rest ← copyExtensions data count (iter + 4 + extensionDataLength.toNat)
    return { extensionType, extensionDataLength, extensionData } :: rest

def parseExtensions (data : Bytes) (dataLength : ℕ) : Checked ExtensionArray := do
  let count ← countExtensions data dataLength (data.length + 1) 0 0
  let extensions ← copyExtensions data count 0
  return { length := UInt8.ofNat count, array := extensions }

/-! ### Encoding -/

/-- The entries a loop up to `ea.length` visits. -/
def ExtensionArray.entries (ea : ExtensionArray) : Checked (List Extension) :=
  if ea.length.toNat ≤ ea.array.length then .ok (ea.array.take ea.length.toNat)
  else .error .overRead

def extensionsLength (ea : ExtensionArray) : Checked ℕ := do
  let es ← ea.entries
  return (es.map fun e => 4 + e.extensionDataLength.toNat).sum

/-- The bytes one turn of the encoding loop writes. -/
def writeExtension (e : Extension) : Checked Bytes := do
  let extensionData ← readBytes e.extensionData 0 e.extensionDataLength.toNat
  return writeUint16 e.extensionType ++ writeUint16 e.extensionDataLength ++ extensionData

def writeExtensions : List Extension → Checked Bytes
  | [] => return []
  | e :: es => do
    let bs ← writeExtension e
    let rest ← writeExtensions es
    return bs ++ rest

def processExtensions (ea : ExtensionArray) : Checked Bytes := do
  let length ← extensionsLength ea
  let es ← ea.entries
  let bs ← writeExtensions es
  fill length bs

/-- The data that `free_extensions` gives back; the array itself goes after it. -/
def freeExtensions (ea : ExtensionArray) : Checked (List Bytes) := do
  let es ← ea.entries
  return es.map fun e => e.extensionData

/-! ### Building -/

/-- The length is eight bits wide, and the array is reallocated to it. For length 0
`realloc` gives the array back and returns `NULL`, which the assertion finds. -/
def growExtensions (ea : ExtensionArray) (amount : ℕ) : Checked ExtensionArray := do
  let length := ea.length + UInt8.ofNat amount
  assert (ea.array = [] ∨ length ≠ 0)
  return { length, array := ea.array.take length.toNat }

/-- Write the entry at `ea.length - 1`. -/
def ExtensionArray.setLast (ea : ExtensionArray) (e : Extension) : Checked ExtensionArray :=
  if ea.length = 0 then .error .overWrite
  else if ea.length.toNat - 1 ≤ ea.array.length then
    .ok { ea with array := ea.array.take (ea.length.toNat - 1) ++ [e] }
  else .error .uninitialised

def addExtension (ea : ExtensionArray) (type length : UInt16) (data : Bytes) :
    Checked ExtensionArray := do
  let ea ← growExtensions ea 1
  let extensionData ← readBytes data 0 length.toNat
  ea.setLast { extensionType := type, extensionDataLength := length, extensionData }

def addKeyShare (ea : ExtensionArray) (group : UInt16) (keyExchange : Bytes)
    (keyExchangeLength : UInt16) : Checked ExtensionArray := do
  let ea ← growExtensions ea 1
  let length := 2 + 2 + keyExchangeLength.toNat
  let key ← readBytes keyExchange 0 keyExchangeLength.toNat
  let buf ← fill length (writeUint16 group ++ writeUint16 keyExchangeLength ++ key)
  ea.setLast
    { extensionType := keyShareExtensionType
      extensionDataLength := UInt16.ofNat length
      extensionData := buf }

def addSupportedVersions (ea : ExtensionArray) : Checked ExtensionArray :=
  addExtension ea supportedVersionsExtensionType 2 [0x03, 0x04]

/-! ### Searching -/

/-- The loop has no bound on its index: without a match it runs off the array. -/
def findExtension (type : UInt16) : List Extension → Checked (Option Extension)
  | [] => .error .overRead
  | e :: es => if e.extensionType = type then return some e else findExtension type es

/-- `NULL` is returned only from the empty array, where the loop is not entered. -/
def getExtension (ea : ExtensionArray) (type : UInt16) : Checked (Option Extension) :=
  if ea.length = 0 then return none else findExtension type ea.array

/-- The walk over the entries of the list, `length` bytes long. -/
def walkKeyShares (data : Bytes) (length : UInt16) : ℕ → ℕ → Checked (Block 32)
  | 0, _ => .error .loops
  | fuel + 1, iter => do
    let group ← readUint16 data iter
    let keLen ← readUint16 data (iter + 2)
    let iter := iter + 4
    if group ≠ namedGroupX25519 then
      if length.toNat ≤ iter - 2 then throw .assertFailed
      walkKeyShares data length fuel (iter + keLen.toNat)
    else
      assert (keLen = 32)
      readBlock data iter 32

def getX25519KeyShare (ea : ExtensionArray) : Checked (Block 32) := do
  let exPtr ← getExtension ea keyShareExtensionType
  match exPtr with
  | none => throw .nullDeref
  | some ex =>
    let length ← readUint16 ex.extensionData 0
    walkKeyShares ex.extensionData length (ex.extensionData.length + 1) 2

/-! ### Well-formed blocks -/

/-- The struct that holds an extension of the wire grammar. -/
def Extension.ofRfc (e : Rfc.Extension) : Extension :=
  ⟨e.type, UInt16.ofNat e.data.length, e.data⟩

/-- The array that holds a list of extensions, its length cut to eight bits. -/
def ExtensionArray.ofRfc (es : List Rfc.Extension) : ExtensionArray :=
  ⟨UInt8.ofNat es.length, es.map Extension.ofRfc⟩

/-- The extensions of an array as the wire grammar has them. -/
def ExtensionArray.toRfc (ea : ExtensionArray) : List Rfc.Extension :=
  ea.array.map fun e => ⟨e.extensionType, e.extensionData⟩

/-- As many entries as the length says, and in each entry as many bytes as its
length says. -/
structure ExtensionArray.WellFormed (ea : ExtensionArray) : Prop where
  count : ea.array.length = ea.length.toNat
  data : ∀ e ∈ ea.array, e.extensionData.length = e.extensionDataLength.toNat

theorem ExtensionArray.WellFormed.ofRfc_toRfc {ea : ExtensionArray} (h : ea.WellFormed) :
    ExtensionArray.ofRfc ea.toRfc = ea := by
  have harray : ea.toRfc.map Extension.ofRfc = ea.array := by
    rw [ExtensionArray.toRfc, List.map_map]
    refine (List.map_congr_left ?_).trans (List.map_id _)
    intro e he
    simp [Extension.ofRfc, h.data e he]
  have hlength : UInt8.ofNat ea.toRfc.length = ea.length := by
    simp [ExtensionArray.toRfc, h.count]
  rw [ExtensionArray.ofRfc, harray, hlength]

theorem ExtensionArray.WellFormed.length_toRfc {ea : ExtensionArray} (h : ea.WellFormed) :
    ea.toRfc.length = ea.length.toNat := by
  rw [ExtensionArray.toRfc, List.length_map, h.count]

theorem ExtensionArray.WellFormed.toRfc_ne_nil {ea : ExtensionArray} (h : ea.WellFormed)
    (hne : ea.length ≠ 0) : ea.toRfc ≠ [] := by
  intro hnil
  have hlength := h.length_toRfc
  rw [hnil] at hlength
  exact hne (UInt8.toNat_inj.mp hlength.symm)

theorem toRfc_ofRfc (es : List Rfc.Extension) : (ExtensionArray.ofRfc es).toRfc = es := by
  rw [ExtensionArray.toRfc, ExtensionArray.ofRfc, List.map_map]
  exact List.map_id es

/-- The length of an extension in a short block is not cut. -/
theorem length_of_mem_ofRfc {es : List Rfc.Extension}
    (hsize : (Rfc.encodeExtensions es).length < 256 ^ 2) :
    ∀ e ∈ (ExtensionArray.ofRfc es).array, e.extensionData.length = e.extensionDataLength.toNat := by
  intro e he
  obtain ⟨a, ha, rfl⟩ := List.mem_map.mp he
  exact (toNat_ofNat_uint16 (Rfc.data_lt_of_mem ha hsize)).symm

/-- The length of an array of at most 255 extensions is not cut. -/
theorem length_ofRfc {es : List Rfc.Extension} (hcount : es.length < 256) :
    (ExtensionArray.ofRfc es).length.toNat = es.length :=
  toNat_ofNat_uint8 hcount

theorem wellFormed_ofRfc {es : List Rfc.Extension} (hcount : es.length < 256)
    (hsize : (Rfc.encodeExtensions es).length < 256 ^ 2) :
    (ExtensionArray.ofRfc es).WellFormed where
  count := by
    rw [length_ofRfc hcount, ExtensionArray.ofRfc, List.length_map]
  data := length_of_mem_ofRfc hsize

/-- The two fields in front of an extension's data, and the data. -/
theorem drop_extension {data rest : Bytes} {iter : ℕ} {e : Rfc.Extension}
    (h : data.drop iter = e.encode ++ rest) (he : e.data.length < 256 ^ 2) :
    readUint16 data iter = .ok e.type ∧
      readUint16 data (iter + 2) = .ok (UInt16.ofNat e.data.length) ∧
      readBytes data (iter + 4) e.data.length = .ok e.data ∧
      data.drop (iter + 4 + e.data.length) = rest := by
  simp only [Rfc.Extension.encode, vec, List.append_assoc] at h
  have h2 := drop_past h (n := 2) (by simp)
  have h4 := drop_past h2 (n := 2) (by simp)
  have hlen := toNat_ofNat_uint16 he
  refine ⟨readUint16_eq h, readUint16_eq (hlen.symm ▸ h2), readBytes_eq h4 rfl, drop_past h4 rfl⟩

/-- What one turn of the copying pass has read. -/
theorem drop_eq_of_turn {data d : Bytes} {iter : ℕ} {type n : UInt16}
    (htype : readUint16 data iter = .ok type) (hn : readUint16 data (iter + 2) = .ok n)
    (hd : readBytes data (iter + 4) n.toNat = .ok d) :
    Extension.ofRfc ⟨type, d⟩ = ⟨type, n, d⟩ ∧
      data.drop iter =
        (⟨type, d⟩ : Rfc.Extension).encode ++ data.drop (iter + 4 + n.toNat) := by
  obtain ⟨hlen, hdata⟩ := drop_eq_of_readBytes hd
  refine ⟨by simp [Extension.ofRfc, hlen], ?_⟩
  rw [drop_eq_of_readUint16 htype, drop_eq_of_readUint16 hn, hdata]
  simp [Rfc.Extension.encode, vec, hlen]

theorem countExtensions_encode (es : List Rfc.Extension) (data rest : Bytes) :
    ∀ (fuel count iter : ℕ), es ≠ [] → es.length ≤ fuel →
      (∀ e ∈ es, e.data.length < 256 ^ 2) →
      data.drop iter = Rfc.encodeExtensions es ++ rest →
      countExtensions data (iter + (Rfc.encodeExtensions es).length) fuel count iter =
        .ok (count + es.length) := by
  induction es with
  | nil => intro _ _ _ h; exact absurd rfl h
  | cons e es ih =>
    intro fuel count iter _ hfuel hlt h
    obtain ⟨fuel, rfl⟩ : ∃ k, fuel = k + 1 := ⟨fuel - 1, by rw [List.length_cons] at hfuel; omega⟩
    have he : e.data.length < 256 ^ 2 := hlt e List.mem_cons_self
    have hcons : Rfc.encodeExtensions (e :: es) = e.encode ++ Rfc.encodeExtensions es := rfl
    rw [hcons, List.append_assoc] at h
    obtain ⟨-, hread, -, hnext⟩ := drop_extension h he
    have hsize : (Rfc.encodeExtensions (e :: es)).length =
        4 + e.data.length + (Rfc.encodeExtensions es).length := by
      rw [hcons, List.length_append, Rfc.Extension.length_encode]
    rw [countExtensions, hread, Checked.bind_ok, toNat_ofNat_uint16 he, hsize]
    -- the test fires on the last extension and on no earlier one
    cases es with
    | nil =>
      simp only [Rfc.encodeExtensions, List.flatMap_nil, List.length_nil]
      rw [if_pos (by omega)]
      rfl
    | cons e' es =>
      have hpos : 0 < (Rfc.encodeExtensions (e' :: es)).length := by
        simp [Rfc.encodeExtensions]
      have hiter : iter + 4 + e.data.length = iter + 2 + (2 + e.data.length) := by omega
      rw [hiter] at hnext
      have hrec := ih fuel (count + 1) (iter + 2 + (2 + e.data.length)) (List.cons_ne_nil _ _)
        (by simpa using hfuel) (fun a ha => hlt a (List.mem_cons_of_mem _ ha)) hnext
      rw [if_neg (by omega)]
      rw [show iter + (4 + e.data.length + (Rfc.encodeExtensions (e' :: es)).length) =
        iter + 2 + (2 + e.data.length) + (Rfc.encodeExtensions (e' :: es)).length by omega, hrec]
      simp only [List.length_cons]
      congr 1
      omega

theorem copyExtensions_encode (es : List Rfc.Extension) (data rest : Bytes) :
    ∀ iter : ℕ, (∀ e ∈ es, e.data.length < 256 ^ 2) →
      data.drop iter = Rfc.encodeExtensions es ++ rest →
      copyExtensions data es.length iter = .ok (es.map Extension.ofRfc) := by
  induction es with
  | nil => intro _ _ _; rfl
  | cons e es ih =>
    intro iter hlt h
    have he : e.data.length < 256 ^ 2 := hlt e List.mem_cons_self
    have hcons : Rfc.encodeExtensions (e :: es) = e.encode ++ Rfc.encodeExtensions es := rfl
    rw [hcons, List.append_assoc] at h
    obtain ⟨htype, hread, hdata, hnext⟩ := drop_extension h he
    have hrec := ih _ (fun a ha => hlt a (List.mem_cons_of_mem _ ha)) hnext
    simp [copyExtensions, htype, hread, hdata, hrec, toNat_ofNat_uint16 he, Extension.ofRfc]

/-- A nonempty block parses to the extensions it encodes. -/
theorem parseExtensions_encode {es : List Rfc.Extension} (rest : Bytes) (hne : es ≠ [])
    (hlt : (Rfc.encodeExtensions es).length < 256 ^ 2) :
    parseExtensions (Rfc.encodeExtensions es ++ rest) (Rfc.encodeExtensions es).length =
      .ok (ExtensionArray.ofRfc es) := by
  have hdata : ∀ e ∈ es, e.data.length < 256 ^ 2 := fun e he => Rfc.data_lt_of_mem he hlt
  have hcount : es.length ≤ (Rfc.encodeExtensions es).length :=
    Rfc.count_le_length Rfc.Extension.encode (fun e => by rw [Rfc.Extension.length_encode]; omega) es
  have hfuel : es.length ≤ (Rfc.encodeExtensions es ++ rest).length + 1 := by
    rw [List.length_append]
    omega
  have hc := countExtensions_encode es _ rest _ 0 0 hne hfuel hdata rfl
  rw [Nat.zero_add, Nat.zero_add] at hc
  simp only [parseExtensions, hc, copyExtensions_encode es _ rest 0 hdata rfl, Checked.bind_ok,
    Checked.pure_eq, ExtensionArray.ofRfc]

/-- The first extension is entered whatever the stated length, so a block with
no byte behind it is read past its end. -/
theorem parseExtensions_nil (dataLength : ℕ) : parseExtensions [] dataLength = .error .overRead := by
  rfl

/-! ### Encoding and building what a block holds -/

theorem entries_ofRfc {es : List Rfc.Extension} (hlt : es.length < 256) :
    (ExtensionArray.ofRfc es).entries = .ok (es.map Extension.ofRfc) := by
  have hlen := length_ofRfc hlt
  have hsize : (ExtensionArray.ofRfc es).array.length = es.length := by simp [ExtensionArray.ofRfc]
  rw [ExtensionArray.entries, hlen, hsize, if_pos le_rfl]
  simp [ExtensionArray.ofRfc, List.take_of_length_le]

/-- The length is summed up in an `int`, so it may be more than a block can have. -/
theorem extensionsLength_of_data {es : List Rfc.Extension} (hlt : es.length < 256)
    (hlengths : ∀ e ∈ es, e.data.length < 256 ^ 2) :
    extensionsLength (ExtensionArray.ofRfc es) = .ok (Rfc.encodeExtensions es).length := by
  have hsum (as : List Rfc.Extension) (hdata : ∀ e ∈ as, e.data.length < 256 ^ 2) :
      ((as.map Extension.ofRfc).map fun e => 4 + e.extensionDataLength.toNat).sum =
        (Rfc.encodeExtensions as).length := by
    induction as with
    | nil => rfl
    | cons e as ih =>
      have he := toNat_ofNat_uint16 (hdata e List.mem_cons_self)
      have hrec := ih fun a ha => hdata a (List.mem_cons_of_mem _ ha)
      simp only [List.map_cons, List.sum_cons, hrec, Extension.ofRfc, he, Rfc.encodeExtensions,
        List.flatMap_cons, List.length_append, Rfc.Extension.length_encode]
  rw [extensionsLength, entries_ofRfc hlt]
  simp only [Checked.bind_ok, Checked.pure_eq, hsum es hlengths]

theorem extensionsLength_ofRfc {es : List Rfc.Extension} (hlt : es.length < 256)
    (hsize : (Rfc.encodeExtensions es).length < 256 ^ 2) :
    extensionsLength (ExtensionArray.ofRfc es) = .ok (Rfc.encodeExtensions es).length :=
  extensionsLength_of_data hlt fun _ he => Rfc.data_lt_of_mem he hsize

theorem writeExtensions_ofRfc {es : List Rfc.Extension} (hdata : ∀ e ∈ es, e.data.length < 256 ^ 2) :
    writeExtensions (es.map Extension.ofRfc) = .ok (Rfc.encodeExtensions es) := by
  induction es with
  | nil => rfl
  | cons e es ih =>
    have he := toNat_ofNat_uint16 (hdata e List.mem_cons_self)
    have hrec := ih fun a ha => hdata a (List.mem_cons_of_mem _ ha)
    have hwrite : writeExtension (Extension.ofRfc e) = .ok e.encode := by
      simp [writeExtension, Extension.ofRfc, he, writeUint16_eq, Rfc.Extension.encode, vec]
    simp [writeExtensions, hwrite, hrec, Rfc.encodeExtensions]

/-- The encoder writes the extensions into a buffer of exactly their size. -/
theorem processExtensions_of_data {es : List Rfc.Extension} (hlt : es.length < 256)
    (hlengths : ∀ e ∈ es, e.data.length < 256 ^ 2) :
    processExtensions (ExtensionArray.ofRfc es) = .ok (Rfc.encodeExtensions es) := by
  simp only [processExtensions, extensionsLength_of_data hlt hlengths, entries_ofRfc hlt,
    writeExtensions_ofRfc hlengths, Checked.bind_ok, fill_eq]

theorem processExtensions_ofRfc {es : List Rfc.Extension} (hlt : es.length < 256)
    (hsize : (Rfc.encodeExtensions es).length < 256 ^ 2) :
    processExtensions (ExtensionArray.ofRfc es) = .ok (Rfc.encodeExtensions es) :=
  processExtensions_of_data hlt fun _ he => Rfc.data_lt_of_mem he hsize

theorem ne_zero_of_toNat_succ {length : UInt8} {n : ℕ} (h : length.toNat = n + 1) :
    length ≠ 0 := by
  rintro rfl
  exact absurd h (Nat.succ_ne_zero n).symm

/-- An array with room for one more entry is grown by it. -/
theorem growExtensions_eq {ea : ExtensionArray} (h : ea.array.length = ea.length.toNat)
    (hlt : ea.array.length < 255) :
    (ea.length + 1).toNat = ea.array.length + 1 ∧
      growExtensions ea 1 = .ok ⟨ea.length + 1, ea.array⟩ := by
  have hlen : (ea.length + 1).toNat = ea.array.length + 1 := by
    rw [UInt8.toNat_add, UInt8.toNat_one, ← h]
    omega
  have htake : ea.array.take (ea.length + 1).toNat = ea.array :=
    List.take_of_length_le (by omega)
  refine ⟨hlen, ?_⟩
  rw [growExtensions, show UInt8.ofNat 1 = 1 by rfl, assert_of (.inr (ne_zero_of_toNat_succ hlen)),
    htake]
  rfl

/-- Its last entry is then written behind the others. -/
theorem setLast_eq {ea : ExtensionArray} (h : (ea.length + 1).toNat = ea.array.length + 1)
    (e : Extension) :
    (⟨ea.length + 1, ea.array⟩ : ExtensionArray).setLast e =
      .ok ⟨ea.length + 1, ea.array ++ [e]⟩ := by
  rw [ExtensionArray.setLast, if_neg (ne_zero_of_toNat_succ h)]
  simp only [h, Nat.add_sub_cancel, le_refl, if_true, List.take_length]

/-- Growing by one entry and writing it appends the entry. -/
theorem setLast_grow {es : List Rfc.Extension} (hlt : es.length + 1 < 256) (e : Rfc.Extension) :
    ∃ ea, growExtensions (ExtensionArray.ofRfc es) 1 = .ok ea ∧
      ea.setLast (Extension.ofRfc e) = .ok (ExtensionArray.ofRfc (es ++ [e])) := by
  have hcount : (ExtensionArray.ofRfc es).array.length = es.length := by simp [ExtensionArray.ofRfc]
  have hlength : (ExtensionArray.ofRfc es).array.length = (ExtensionArray.ofRfc es).length.toNat := by
    rw [hcount, length_ofRfc (by omega)]
  obtain ⟨hlen, hgrow⟩ := growExtensions_eq hlength (by omega)
  have hof : (ExtensionArray.ofRfc es).length + 1 = UInt8.ofNat (es ++ [e]).length := by
    apply UInt8.toNat_inj.mp
    rw [hlen, hcount, List.length_append, List.length_singleton, toNat_ofNat_uint8 hlt]
  refine ⟨_, hgrow, (setLast_eq hlen _).trans ?_⟩
  rw [hof, ExtensionArray.ofRfc, ExtensionArray.ofRfc, List.map_append]
  rfl

theorem addExtension_ofRfc {es : List Rfc.Extension} (hlt : es.length + 1 < 256) (type : UInt16)
    {length : UInt16} {data : Bytes} (h : data.length = length.toNat) :
    addExtension (ExtensionArray.ofRfc es) type length data =
      .ok (ExtensionArray.ofRfc (es ++ [⟨type, data⟩])) := by
  have hof : (⟨type, length, data⟩ : Extension) = Extension.ofRfc ⟨type, data⟩ := by
    simp [Extension.ofRfc, h]
  obtain ⟨ea, hgrow, hset⟩ := setLast_grow hlt ⟨type, data⟩
  simp only [addExtension, hgrow, ← h, readBytes_self, Checked.bind_ok, hof, hset]

/-- The data of a key share extension with one entry. -/
def keyShareData (group : UInt16) (key : Bytes) : Bytes := be 2 group.toNat ++ vec 2 key

theorem addKeyShare_ofRfc {es : List Rfc.Extension} (hlt : es.length + 1 < 256) (group : UInt16)
    {length : UInt16} {key : Bytes} (h : key.length = length.toNat) :
    addKeyShare (ExtensionArray.ofRfc es) group key length =
      .ok (ExtensionArray.ofRfc (es ++ [⟨keyShareExtensionType, keyShareData group key⟩])) := by
  have hbuf : fill (2 + 2 + length.toNat) (writeUint16 group ++ writeUint16 length ++ key) =
      .ok (keyShareData group key) := by
    rw [fill_eq (by simp [writeUint16_eq, h]; omega)]
    simp [keyShareData, vec, writeUint16_eq, h]
  have hof : (⟨keyShareExtensionType, UInt16.ofNat (2 + 2 + length.toNat),
      keyShareData group key⟩ : Extension) =
      Extension.ofRfc ⟨keyShareExtensionType, keyShareData group key⟩ := by
    simp only [Extension.ofRfc, keyShareData, List.length_append, length_be, length_vec, h,
      Nat.add_assoc]
  obtain ⟨ea, hgrow, hset⟩ := setLast_grow hlt ⟨keyShareExtensionType, keyShareData group key⟩
  simp only [addKeyShare, hgrow, ← h, readBytes_self, Checked.bind_ok]
  rw [h, hbuf]
  simp only [Checked.bind_ok, hof, hset]

theorem addSupportedVersions_ofRfc {es : List Rfc.Extension} (hlt : es.length + 1 < 256) :
    addSupportedVersions (ExtensionArray.ofRfc es) =
      .ok (ExtensionArray.ofRfc (es ++ [⟨supportedVersionsExtensionType, [0x03, 0x04]⟩])) :=
  addExtension_ofRfc hlt _ rfl

/-! ### The search for a key share -/

theorem findExtension_ofRfc (type : UInt16) (es : List Rfc.Extension) :
    findExtension type (es.map Extension.ofRfc) =
      match es.find? (·.type = type) with
      | some e => .ok (some (Extension.ofRfc e))
      | none => .error .overRead := by
  induction es with
  | nil => rfl
  | cons e es ih =>
    by_cases h : e.type = type
    · simp [findExtension, Extension.ofRfc, h]
    · have hh : (Extension.ofRfc e).extensionType ≠ type := h
      simp [findExtension, hh, h, ih]

/-- Among at most 255 extensions the search finds the first of its type, and
reads past the array when there is none. -/
theorem getExtension_ofRfc {es : List Rfc.Extension} (type : UInt16) (hne : es ≠ [])
    (hlt : es.length < 256) :
    getExtension (ExtensionArray.ofRfc es) type =
      match es.find? (·.type = type) with
      | some e => .ok (some (Extension.ofRfc e))
      | none => .error .overRead := by
  have hlen : (ExtensionArray.ofRfc es).length ≠ 0 := by
    intro h
    have hlength := length_ofRfc hlt
    rw [h] at hlength
    exact hne (List.eq_nil_of_length_eq_zero hlength.symm)
  rw [getExtension, if_neg hlen]
  exact findExtension_ofRfc type es

/-- The two fields in front of a key, and what follows the key. -/
theorem drop_keyShareEntry {data rest : Bytes} {iter : ℕ} {s : Rfc.KeyShareEntry}
    (h : data.drop iter = s.encode ++ rest) (hs : s.key.length < 256 ^ 2) :
    readUint16 data iter = .ok s.group ∧
      readUint16 data (iter + 2) = .ok (UInt16.ofNat s.key.length) ∧
      data.drop (iter + 4) = s.key ++ rest := by
  simp only [Rfc.KeyShareEntry.encode, vec, List.append_assoc] at h
  have h2 := drop_past h (n := 2) (by simp)
  have hlen := toNat_ofNat_uint16 hs
  have h4 := drop_past h2 (n := 2) (by simp)
  exact ⟨readUint16_eq h, readUint16_eq (hlen.symm ▸ h2), h4⟩

/-- The test for the end of a list fires behind an empty key at its end only. -/
theorem endTest_iff {s : Rfc.KeyShareEntry} {entries : List Rfc.KeyShareEntry} {length : UInt16}
    {iter : ℕ} (hiter : 2 ≤ iter)
    (hend : iter + ((s :: entries).flatMap Rfc.KeyShareEntry.encode).length = 2 + length.toNat) :
    length.toNat ≤ iter + 4 - 2 ↔ s.key = [] ∧ entries = [] := by
  rw [List.flatMap_cons, List.length_append, Rfc.KeyShareEntry.length_encode] at hend
  constructor
  · intro hfires
    refine ⟨List.eq_nil_of_length_eq_zero (by omega), ?_⟩
    cases entries with
    | nil => rfl
    | cons s' entries =>
      rw [List.flatMap_cons, List.length_append, Rfc.KeyShareEntry.length_encode] at hend
      omega
  · rintro ⟨hkey, rfl⟩
    rw [hkey, List.flatMap_nil, List.length_nil] at hend
    omega

/-- How the walk over a list of entries ends. Behind the last entry it goes on,
unless that entry has an empty key. -/
def walkEnding : List Rfc.KeyShareEntry → Checked (Block 32)
  | [] => .error .overRead
  | s :: entries =>
    if s.group = namedGroupX25519 then
      if h : s.key.length = 32 then .ok ⟨s.key, h⟩ else .error .assertFailed
    else if s.key = [] ∧ entries = [] then .error .assertFailed
    else walkEnding entries

/-- A key comes out when the first X25519 entry has one of 32 bytes. -/
theorem walkEnding_eq_ok {entries : List Rfc.KeyShareEntry} {k : Block 32} :
    walkEnding entries = .ok k ↔
      ∃ s, entries.find? (·.group = namedGroupX25519) = some s ∧ s.key = k.val := by
  induction entries with
  | nil => simp [walkEnding]
  | cons s entries ih =>
    rw [walkEnding]
    by_cases hg : s.group = namedGroupX25519
    · rw [if_pos hg, List.find?_cons_of_pos (by simpa using hg)]
      by_cases h32 : s.key.length = 32
      · simp [h32, Subtype.ext_iff]
      · rw [dif_neg h32]
        refine iff_of_false (by simp) ?_
        rintro ⟨_, hs, hkey⟩
        cases hs
        exact h32 (by rw [hkey]; exact k.length_val)
    · rw [if_neg hg, List.find?_cons_of_neg (by simpa using hg)]
      by_cases hlast : s.key = [] ∧ entries = []
      · rw [if_pos hlast, hlast.2]
        simp
      · rw [if_neg hlast]
        exact ih

/-- The walk over a list that ends where its length says. -/
theorem walkKeyShares_eq_ending (entries : List Rfc.KeyShareEntry) {data : Bytes}
    {length : UInt16} :
    ∀ {fuel iter : ℕ}, entries.length < fuel → 2 ≤ iter →
      (∀ s ∈ entries, s.key.length < 256 ^ 2) →
      data.drop iter = entries.flatMap Rfc.KeyShareEntry.encode →
      iter + (entries.flatMap Rfc.KeyShareEntry.encode).length = 2 + length.toNat →
      walkKeyShares data length fuel iter = walkEnding entries := by
  induction entries with
  | nil =>
    intro fuel iter hfuel _ _ h _
    obtain ⟨fuel, rfl⟩ : ∃ j, fuel = j + 1 := ⟨fuel - 1, by rw [List.length_nil] at hfuel; omega⟩
    have hread : readUint16 data iter = .error .overRead := by
      simp only [readUint16, loadUint16, readByte, h]
      rfl
    rw [walkKeyShares, hread]
    rfl
  | cons s entries ih =>
    intro fuel iter hfuel hiter hlt h hend
    obtain ⟨fuel, rfl⟩ : ∃ j, fuel = j + 1 := ⟨fuel - 1, by omega⟩
    have hs : s.key.length < 256 ^ 2 := hlt s List.mem_cons_self
    have htest := endTest_iff hiter hend
    rw [List.flatMap_cons] at h hend
    obtain ⟨hgroup, hlen, hkey⟩ := drop_keyShareEntry h hs
    rw [List.length_append, Rfc.KeyShareEntry.length_encode] at hend
    rw [walkKeyShares, walkEnding, hgroup, hlen]
    simp only [Checked.bind_ok, toNat_ofNat_uint16 hs]
    by_cases hg : s.group = namedGroupX25519
    · rw [if_neg (not_not.mpr hg), if_pos hg]
      by_cases h32 : s.key.length = 32
      · have hread : readBlock data (iter + 4) 32 = .ok ⟨s.key, h32⟩ :=
          readBlock_eq ⟨s.key, h32⟩ hkey
        have hkeLen : UInt16.ofNat s.key.length = 32 := by rw [h32]; rfl
        rw [assert_of hkeLen, Checked.bind_ok, hread, dif_pos h32]
      · have hne : UInt16.ofNat s.key.length ≠ 32 := by
          intro h'
          exact h32 (by rw [← toNat_ofNat_uint16 hs, h']; rfl)
        rw [dif_neg h32, assert, if_neg hne]
        rfl
    · rw [if_pos hg, if_neg hg]
      by_cases hlast : length.toNat ≤ iter + 4 - 2
      · rw [if_pos hlast, if_pos (htest.mp hlast)]
        rfl
      · rw [if_neg hlast, if_neg (htest.not.mp hlast)]
        exact ih (by simpa using hfuel) (by omega)
          (fun a ha => hlt a (List.mem_cons_of_mem _ ha)) (drop_past hkey rfl) (by omega)

/-- A `client_shares` list is walked over as its entries. -/
theorem getX25519KeyShare_eq_ending {ea : ExtensionArray} {ex : Extension} {l : Rfc.ClientShares}
    (hget : getExtension ea keyShareExtensionType = .ok (some ex))
    (hdata : ex.extensionData = l.encode) : getX25519KeyShare ea = walkEnding l.entries := by
  have hlen := toNat_ofNat_uint16 l.size_lt
  have h0 : ex.extensionData.drop 0 =
      be 2 (UInt16.ofNat (l.entries.flatMap Rfc.KeyShareEntry.encode).length).toNat ++
        l.entries.flatMap Rfc.KeyShareEntry.encode := by
    rw [hlen, hdata]
    rfl
  have h2 : ex.extensionData.drop 2 = l.entries.flatMap Rfc.KeyShareEntry.encode :=
    drop_past (n := 2) h0 (by simp)
  have hcount := Rfc.count_le_length Rfc.KeyShareEntry.encode
    (fun s => by rw [Rfc.KeyShareEntry.length_encode]; omega) l.entries
  have hsize : ex.extensionData.length =
      2 + (l.entries.flatMap Rfc.KeyShareEntry.encode).length := by
    rw [hdata, Rfc.ClientShares.encode, length_vec]
  simp only [getX25519KeyShare, hget, Checked.bind_ok, readUint16_eq h0]
  exact walkKeyShares_eq_ending l.entries (by omega) le_rfl l.key_lt h2 (by rw [hlen])

/-- It yields the key of its first X25519 entry, if that has 32 bytes, and nothing else. -/
theorem getX25519KeyShare_list {ea : ExtensionArray} {ex : Extension} {l : Rfc.ClientShares}
    (hget : getExtension ea keyShareExtensionType = .ok (some ex))
    (hdata : ex.extensionData = l.encode) (k : Block 32) :
    getX25519KeyShare ea = .ok k ↔ ∃ s, l.firstX25519 = some s ∧ s.key = k.val := by
  rw [getX25519KeyShare_eq_ending hget hdata]
  exact walkEnding_eq_ok

theorem getX25519KeyShare_of_offers {ch : Rfc.ClientHello} {k : Block 32}
    (hlt : ch.extensions.length < 256) (h : ch.OffersX25519 k) :
    getX25519KeyShare (ExtensionArray.ofRfc ch.extensions) = .ok k := by
  have hne := h.extensions_ne_nil
  obtain ⟨e, l, s, he, hdata, hs, hk⟩ := h
  have hget := getExtension_ofRfc keyShareExtensionType hne hlt
  rw [show ch.extensions.find? (·.type = keyShareExtensionType) = some e from he] at hget
  exact (getX25519KeyShare_list hget hdata k).mpr ⟨s, hs, hk⟩

/-- With well-formed share lists nothing but an offered key comes out. -/
theorem offers_of_getX25519KeyShare {ch : Rfc.ClientHello} {k : Block 32}
    (hne : ch.extensions ≠ []) (hlt : ch.extensions.length < 256) (hwf : ch.SharesWellFormed)
    (h : getX25519KeyShare (ExtensionArray.ofRfc ch.extensions) = .ok k) : ch.OffersX25519 k := by
  have hget := getExtension_ofRfc keyShareExtensionType hne hlt
  cases he : ch.extensions.find? (·.type = keyShareExtensionType) with
  | none =>
    rw [he] at hget
    simp [getX25519KeyShare, hget] at h
  | some e =>
    rw [he] at hget
    have htype : e.type = 51 := by simpa using List.find?_some he
    obtain ⟨l, hl⟩ := hwf e (List.mem_of_find?_eq_some he) htype
    obtain ⟨s, hs, hk⟩ := (getX25519KeyShare_list hget hl k).mp h
    exact ⟨e, l, s, he, hl, hs, hk⟩

/-! ### What a search that returns has found -/

theorem findExtension_eq_ok {type : UInt16} {es : List Extension} {found : Option Extension}
    (h : findExtension type es = .ok found) : es.find? (·.extensionType = type) = found := by
  induction es with
  | nil => cases h
  | cons e es ih =>
    rw [findExtension] at h
    by_cases htype : e.extensionType = type
    · rw [if_pos htype] at h
      cases h
      simp [htype]
    · rw [if_neg htype] at h
      simp [htype, ih h]

theorem getExtension_eq_ok {ea : ExtensionArray} {type : UInt16} {ex : Extension}
    (h : getExtension ea type = .ok (some ex)) :
    ea.array.find? (·.extensionType = type) = some ex := by
  rw [getExtension] at h
  split at h
  · cases h
  · exact findExtension_eq_ok h

/-- Of a message that offers a key no other key is read, however many extensions it has. -/
theorem eq_of_offers {ch : Rfc.ClientHello} {k key : Block 32} (h : ch.OffersX25519 k)
    (hshare : getX25519KeyShare (ExtensionArray.ofRfc ch.extensions) = .ok key) : key = k := by
  obtain ⟨e, l, s, he, hdata, hs, hk⟩ := h
  have hfind := hshare
  simp only [getX25519KeyShare, Checked.bind_eq_ok] at hfind
  obtain ⟨found, hget, hfound⟩ := hfind
  cases found with
  | none => cases hfound
  | some ex =>
    -- the extension that was found is the first of its type in the message
    have hex : (ch.extensions.find? (·.type = keyShareExtensionType)).map Extension.ofRfc =
        some ex := by
      rw [← getExtension_eq_ok hget, ExtensionArray.ofRfc, List.find?_map]
      rfl
    rw [show ch.extensions.find? (·.type = keyShareExtensionType) = some e from he,
      Option.map_some, Option.some.injEq] at hex
    have hexdata : ex.extensionData = l.encode := by
      rw [← hex]
      exact hdata
    obtain ⟨s', hs', hkey⟩ := (getX25519KeyShare_list hget hexdata key).mp hshare
    rw [hs, Option.some.injEq] at hs'
    exact Subtype.ext (by rw [← hkey, ← hs', hk])

/-- Two bytes of length, entries of other groups and an X25519 entry with the
key, whatever follows them and whatever the length says. -/
def LeadsToX25519 (data : Bytes) (key : Block 32) : Prop :=
  ∃ (length : Block 2) (others : List Rfc.KeyShareEntry) (rest : Bytes),
    (∀ s ∈ others, s.group ≠ namedGroupX25519) ∧
      data = length.val ++ (others.flatMap Rfc.KeyShareEntry.encode ++
        ((⟨namedGroupX25519, key.val⟩ : Rfc.KeyShareEntry).encode ++ rest))

/-- A turn of a walk that returns steps over an entry of another group, or reads the key. -/
theorem walkKeyShares_succ_eq_ok {data : Bytes} {length : UInt16} {fuel iter : ℕ} {key : Block 32}
    (h : walkKeyShares data length (fuel + 1) iter = .ok key) :
    ∃ group keLen, readUint16 data iter = .ok group ∧ readUint16 data (iter + 2) = .ok keLen ∧
      ((group ≠ namedGroupX25519 ∧
          walkKeyShares data length fuel (iter + 4 + keLen.toNat) = .ok key) ∨
        (group = namedGroupX25519 ∧ keLen = 32 ∧ readBlock data (iter + 4) 32 = .ok key)) := by
  simp only [walkKeyShares, Checked.bind_eq_ok] at h
  obtain ⟨group, hgroup, keLen, hlen, h⟩ := h
  refine ⟨group, keLen, hgroup, hlen, ?_⟩
  split at h
  · split at h
    · cases h
    · exact .inl ⟨‹_›, h⟩
  · simp only [Checked.bind_eq_ok, assert_eq_ok] at h
    obtain ⟨_, h32, hread⟩ := h
    exact .inr ⟨not_not.mp ‹_›, h32, hread⟩

/-- A walk that returns stepped over entries of other groups to an X25519 entry. -/
theorem walkKeyShares_eq_ok {data : Bytes} {length : UInt16} {key : Block 32} {fuel iter : ℕ}
    (h : walkKeyShares data length fuel iter = .ok key) :
    ∃ (others : List Rfc.KeyShareEntry) (rest : Bytes),
      (∀ s ∈ others, s.group ≠ namedGroupX25519) ∧
        data.drop iter = others.flatMap Rfc.KeyShareEntry.encode ++
          ((⟨namedGroupX25519, key.val⟩ : Rfc.KeyShareEntry).encode ++ rest) := by
  induction fuel generalizing iter with
  | zero => cases h
  | succ fuel ih =>
    obtain ⟨group, keLen, hgroup, hlen, hturn⟩ := walkKeyShares_succ_eq_ok h
    have hentry : data.drop iter = be 2 group.toNat ++ (be 2 keLen.toNat ++ data.drop (iter + 4)) := by
      rw [drop_eq_of_readUint16 hgroup, drop_eq_of_readUint16 hlen]
    rcases hturn with ⟨hother, hwalk⟩ | ⟨rfl, rfl, hread⟩
    · obtain ⟨others, rest, hothers, hnext⟩ := ih hwalk
      -- the next entry was read, so the key that was stepped over is there
      have hpos : 0 < (data.drop (iter + 4 + keLen.toNat)).length := by
        rw [hnext]
        simp only [List.length_append, Rfc.KeyShareEntry.length_encode]
        omega
      rw [List.length_drop] at hpos
      obtain ⟨ke, hke, hsplit⟩ :=
        exists_drop_eq_append (by omega : iter + 4 + keLen.toNat ≤ data.length)
      refine ⟨⟨group, ke⟩ :: others, rest, List.forall_mem_cons.mpr ⟨hother, hothers⟩, ?_⟩
      rw [hentry, hsplit, hnext, ← hke]
      simp [Rfc.KeyShareEntry.encode, vec]
    · refine ⟨[], data.drop (iter + 4 + 32), by simp, ?_⟩
      rw [hentry, drop_eq_of_readBlock hread]
      simp [Rfc.KeyShareEntry.encode, vec]

/-- A share that is found is the first X25519 entry of the first extension of its type. -/
theorem getX25519KeyShare_eq_ok {ea : ExtensionArray} {key : Block 32}
    (h : getX25519KeyShare ea = .ok key) :
    ∃ ex, ea.array.find? (·.extensionType = keyShareExtensionType) = some ex ∧
      LeadsToX25519 ex.extensionData key ∧
      ∀ l : Rfc.ClientShares, ex.extensionData = l.encode →
        ∃ s ∈ l.entries, s.group = namedGroupX25519 ∧ s.key = key.val := by
  have hshare := h
  simp only [getX25519KeyShare, Checked.bind_eq_ok] at h
  obtain ⟨found, hget, h⟩ := h
  cases found with
  | none => cases h
  | some ex =>
    simp only [Checked.bind_eq_ok] at h
    obtain ⟨length, hlength, hwalk⟩ := h
    obtain ⟨others, rest, hothers, hdrop⟩ := walkKeyShares_eq_ok hwalk
    refine ⟨ex, getExtension_eq_ok hget, ?_, ?_⟩
    · refine ⟨⟨be 2 length.toNat, length_be 2 _⟩, others, rest, hothers, ?_⟩
      have hdata := drop_eq_of_readUint16 hlength
      rw [List.drop_zero, hdrop] at hdata
      exact hdata
    · intro l hl
      obtain ⟨s, hs, hkey⟩ := (getX25519KeyShare_list hget hl key).mp hshare
      exact ⟨s, List.mem_of_find?_eq_some hs, by simpa using List.find?_some hs, hkey⟩

end TLS13
