import TLS13.Lib.ByteStream
import TLS13.Rfc.Records
import TLS13.Sodium
import TLS13.Util

/-! Records, `wrappers/record.c`: reading one from a socket, writing one, and
protecting and opening one. The opening copies the plaintext onto the struct it
fills instead of into the buffer it allocates for it, so what the buffer holds
is an argument here. -/

namespace TLS13

open Lib

variable (S : Sodium)

/-! ### Reading and writing -/

/-- The 16-bit variable with these two bytes in memory. -/
def uint16Of (bs : Bytes) : UInt16 := (bs.getD 0 0).toUInt16 ||| ((bs.getD 1 0).toUInt16 <<< 8)

/-- The last read of `read_record`, once the length is known. -/
def readFragment (type : UInt8) (legacyRecordVersion : Block 2) (length : UInt16)
    (socket : ByteStream) : Except ℤ (Record × ByteStream) :=
  let (buf, socket) := socket.read length.toNat
  if h : buf.length ≠ length.toNat then .error (-6)
  else
    .ok ({ type, legacyRecordVersion := legacyRecordVersion.val, length, fragment := buf,
           version_size := legacyRecordVersion.property, fragment_size := of_not_not h }, socket)

/-- Error codes -2 and -5 stand for a failing `malloc`. -/
def readRecord (socket : ByteStream) : Except ℤ (Record × ByteStream) :=
  let (type, socket) := socket.read 1
  if type.length ≠ 1 then .error (-1)
  else
    let (legacyRecordVersion, socket) := socket.read 2
    if h : legacyRecordVersion.length ≠ 2 then .error (-3)
    else
      let (length, socket) := socket.read 2
      if length.length ≠ 2 then .error (-4)
      else
        readFragment (type.getD 0 0) ⟨legacyRecordVersion, of_not_not h⟩
          (htons (uint16Of length)) socket

def processRecord (record : TLSPlaintext) : Checked Bytes := do
  let length := 1 + 2 + 2 + record.length.toNat
  let legacyRecordVersion ← readBytes record.legacyRecordVersion 0 2
  let fragment ← readBytes record.fragment 0 record.length.toNat
  fill length ([record.type] ++ legacyRecordVersion ++ writeUint16 record.length ++ fragment)

def processRecordHeaders (record : TLSPlaintext) : Checked Bytes := do
  let v0 ← readByte record.legacyRecordVersion 0
  let v1 ← readByte record.legacyRecordVersion 1
  return [record.type, v0, v1] ++ writeUint16 record.length

/-! ### Protection -/

/-- `rand` is the number drawn for the padding length. -/
def encryptRecord (rand : ℕ) (record : TLSPlaintext) (key : Block 32) (nonce : Block 12) :
    Checked Bytes := do
  let paddingLength := rand % (paddingMax - paddingMin + 1) + paddingMin
  let tlsInnerPlainTextLength := UInt16.ofNat (record.length.toNat + 1 + paddingLength)
  let len := 1 + 2 + 2 + tlsInnerPlainTextLength.toNat + aeadTagLength
  let uint16Buf := UInt16.ofNat (len - 5)
  let additonalData : Bytes := [23, 0x03, 0x03] ++ storeUint16 (htons uint16Buf)
  let content ← readBytes record.fragment 0 record.length.toNat
  let tlsInnerPlainText ← fill tlsInnerPlainTextLength.toNat
    (content ++ record.type :: List.replicate paddingLength 0)
  let cipherText := S.aeadEncrypt tlsInnerPlainText additonalData nonce key
  let cipherTextLength := cipherText.val.length
  assert (cipherTextLength = len - 5)
  assert (len = 5 + cipherTextLength)
  fill (5 + cipherTextLength) (additonalData ++ cipherText.val)

/-- The scan for zeros from the last byte towards the first, over the reversed
buffer: a buffer of zeros, or none, sends it past the start. -/
def paddingOffset : Bytes → Checked ℕ
  | [] => .error .overRead
  | b :: bs => if b = 0 then do return (← paddingOffset bs) + 1 else return 0

/-- `memcpy(out, src, src.length)` onto the 32 bytes of the struct: the type is
at 0, the version pointer at 8, the length at 16 and the fragment pointer at 24.
A pointer with a byte overwritten points to no allocation any more. -/
def TLSPlaintext.overwrite (out : TLSPlaintext) (src : Bytes) : Checked TLSPlaintext :=
  if 32 < src.length then .error .overWrite
  else
    let l0 := src.getD 16 out.length.toUInt8
    let l1 := src.getD 17 (out.length >>> 8).toUInt8
    .ok
      { type := src.headD out.type
        legacyRecordVersion := if 8 < src.length then [] else out.legacyRecordVersion
        length := l0.toUInt16 ||| (l1.toUInt16 <<< 8)
        fragment := if 24 < src.length then [] else out.fragment }

/-- `heap` is what freshly allocated buffers hold. Error codes -1, -4 and -5
stand for a failing `malloc`. -/
def decryptRecord (heap : (n : ℕ) → Block n) (out record : TLSPlaintext) (key : Block 32)
    (nonce : Block 12) : Checked (ℤ × TLSPlaintext) := do
  let additionalData ← processRecordHeaders record
  let fragment ← readBytes record.fragment 0 record.length.toNat
  match S.aeadDecrypt fragment additionalData nonce key with
  | none => return (-2, out)
  | some buf =>
    if (buf.length : ℤ) ≠ record.length.toNat - aeadTagLength then return (-3, out)
    else do
      let offset ← paddingOffset buf.reverse
      let contentType ← readByte buf (buf.length - 1 - offset)
      let v0 ← readByte record.legacyRecordVersion 0
      let v1 ← readByte record.legacyRecordVersion 1
      let out := { out with type := contentType, legacyRecordVersion := [v0, v1] }
      let outLen := buf.length - 1 - offset
      let buf2 := heap outLen
      let content ← readBytes buf 0 outLen
      let out ← out.overwrite content
      return (0, { out with length := UInt16.ofNat outLen, fragment := buf2.val })

/-! ### A record is four reads -/

def fragmentReader (type : UInt8) (legacyRecordVersion : Block 2) (length : UInt16) :
    Reader Record :=
  .ask length.toNat fun buf =>
    .done
      { type, legacyRecordVersion := legacyRecordVersion.val, length, fragment := buf.val,
        version_size := legacyRecordVersion.property, fragment_size := buf.property }

/-- The reads of `readRecord`, each made when the ones before it were full. -/
def recordReader : Reader Record :=
  .ask 1 fun type => .ask 2 fun version => .ask 2 fun length =>
    fragmentReader (type.val.getD 0 0) version (htons (uint16Of length.val))

/-- The error code of the read that fell short. -/
def readCode : ℕ → ℤ
  | 0 => -1
  | 1 => -3
  | 2 => -4
  | _ => -6

theorem readFragment_eq_run (type : UInt8) (version : Block 2) (length : UInt16)
    (socket : ByteStream) :
    readFragment type version length socket =
      ((fragmentReader type version length).run socket).mapError fun _ => -6 := by
  by_cases hbuf : socket.amount length.toNat = length.toNat
  · obtain ⟨buf, s, hread, hrun⟩ := Reader.run_ask_of_full hbuf
    simp only [readFragment, fragmentReader, hread, hrun]
    simp [Reader.run, Except.mapError]
  · simp only [readFragment, fragmentReader, Reader.run_ask_of_short hbuf]
    simp [hbuf, Except.mapError]

/-- Reading a record is running its reader, and the code says which read failed. -/
theorem readRecord_eq_run (socket : ByteStream) :
    readRecord socket = (recordReader.run socket).mapError readCode := by
  by_cases htype : socket.amount 1 = 1
  · obtain ⟨type, s1, hread1, hrun1⟩ := Reader.run_ask_of_full htype
    by_cases hversion : s1.amount 2 = 2
    · obtain ⟨version, s2, hread2, hrun2⟩ := Reader.run_ask_of_full hversion
      by_cases hlength : s2.amount 2 = 2
      · obtain ⟨length, s3, hread3, hrun3⟩ := Reader.run_ask_of_full hlength
        simp only [readRecord, recordReader, hread1, hread2, hread3, hrun1, hrun2, hrun3,
          readFragment_eq_run]
        simp only [Block.length_val, ne_eq, not_true_eq_false, if_false, dite_false]
        cases (fragmentReader (type.val.getD 0 0) version (htons (uint16Of length.val))).run s3 <;> rfl
      · simp only [readRecord, recordReader, hread1, hread2, hrun1, hrun2,
          Reader.run_ask_of_short hlength]
        simp [hlength, Except.mapError, readCode]
    · simp only [readRecord, recordReader, hread1, hrun1, Reader.run_ask_of_short hversion]
      simp [hversion, Except.mapError, readCode]
  · simp only [readRecord, recordReader, Reader.run_ask_of_short htype]
    simp [htype, Except.mapError, readCode]

theorem fragmentReader_error {type : UInt8} {version : Block 2} {length : UInt16} {i : ℕ}
    {socket : ByteStream} (h : (fragmentReader type version length).run socket = .error i) :
    i = 0 := by
  rcases Reader.run_ask_eq_error.mp h with ⟨-, hi⟩ | ⟨_, j, -, hdone⟩
  · exact hi
  · cases hdone

/-- A record is four reads, so the read that fails is one of them. -/
theorem recordReader_error_lt {socket : ByteStream} {i : ℕ}
    (h : recordReader.run socket = .error i) : i < 4 := by
  rcases Reader.run_ask_eq_error.mp h with ⟨-, rfl⟩ | ⟨_, j, rfl, h1⟩
  · decide
  rcases Reader.run_ask_eq_error.mp h1 with ⟨-, rfl⟩ | ⟨_, j, rfl, h2⟩
  · decide
  rcases Reader.run_ask_eq_error.mp h2 with ⟨-, rfl⟩ | ⟨_, j, rfl, h3⟩
  · decide
  · have hj := fragmentReader_error h3
    omega

theorem readCode_injOn {i j : ℕ} (hi : i < 4) (hj : j < 4) (h : readCode i = readCode j) :
    i = j := by
  interval_cases i <;> interval_cases j <;> simp_all [readCode]

/-- What a caller sees of `readRecord` is the outcome of its reads. -/
theorem readRecord_map_eq_iff (a b : ByteStream) :
    (readRecord a).map Prod.fst = (readRecord b).map Prod.fst ↔
      recordReader.outcome a = recordReader.outcome b := by
  simp only [readRecord_eq_run, Reader.outcome]
  cases ha : recordReader.run a with
  | error i =>
    cases hb : recordReader.run b with
    | error j =>
      have hi := recordReader_error_lt ha
      have hj := recordReader_error_lt hb
      simp only [Except.map, Except.mapError, Except.error.injEq]
      exact ⟨readCode_injOn hi hj, congrArg readCode⟩
    | ok v => simp [Except.map, Except.mapError]
  | ok v =>
    cases hb : recordReader.run b <;> simp [Except.map, Except.mapError]

theorem run_of_readRecord {socket socket' : ByteStream} {r : Record}
    (h : readRecord socket = .ok (r, socket')) : recordReader.run socket = .ok (r, socket') := by
  rwa [readRecord_eq_run, Reader.mapError_eq_ok] at h

theorem pending_length_readRecord {socket socket' : ByteStream} {r : Record}
    (h : readRecord socket = .ok (r, socket')) : socket'.pending.length < socket.pending.length :=
  Reader.pending_length_run_ask (by norm_num) (run_of_readRecord h)

/-- A record of version 0x0303 that holds a fragment. -/
def Record.ofFragment (type : UInt8) (fragment : Bytes) (h : fragment.length < 256 ^ 2) : Record where
  type
  legacyRecordVersion := legacyVersion.val
  length := UInt16.ofNat fragment.length
  fragment
  version_size := legacyVersion.length_val
  fragment_size := (toNat_ofNat_uint16 h).symm

theorem Record.readBytes_version (r : Record) :
    readBytes r.legacyRecordVersion 0 2 = .ok r.legacyRecordVersion := by
  rw [← r.version_size]
  exact readBytes_self _

/-- Reading a record's fragment for its length reads all of it. -/
theorem Record.readBytes_fragment (r : Record) :
    readBytes r.fragment 0 r.length.toNat = .ok r.fragment := by
  rw [← r.fragment_size]
  exact readBytes_self r.fragment

/-- The first five bytes of a record. -/
def Record.header (r : Record) : Bytes := [r.type] ++ (r.legacyRecordVersion ++ be 2 r.length.toNat)

/-- The record as it stands on the wire. -/
def Record.encode (r : Record) : Bytes :=
  [r.type] ++ (r.legacyRecordVersion ++ (be 2 r.length.toNat ++ r.fragment))

theorem processRecordHeaders_eq (r : Record) :
    processRecordHeaders r.toTLSPlaintext = .ok r.header := by
  obtain ⟨v0, v1, hversion⟩ := List.length_eq_two.mp r.version_size
  simp [processRecordHeaders, readByte, hversion, writeUint16_eq, Record.header]

theorem processRecord_eq (r : Record) : processRecord r.toTLSPlaintext = .ok r.encode := by
  simp only [processRecord, r.readBytes_version, r.readBytes_fragment, Checked.bind_ok]
  rw [fill_eq (by simp [writeUint16_eq, r.version_size, r.fragment_size]; omega)]
  simp [Record.encode, writeUint16_eq]

theorem header_ofFragment (type : UInt8) {fragment : Bytes} (h : fragment.length < 256 ^ 2) :
    (Record.ofFragment type fragment h).header = Rfc.recordHeader type fragment.length := by
  simp [Record.header, Record.ofFragment, Rfc.recordHeader, toNat_ofNat_uint16 h]

theorem encode_ofFragment (type : UInt8) {fragment : Bytes} (h : fragment.length < 256 ^ 2) :
    (Record.ofFragment type fragment h).encode = Rfc.plaintextRecord type fragment := by
  simp [Record.encode, Record.ofFragment, Rfc.plaintextRecord, Rfc.recordHeader,
    toNat_ofNat_uint16 h]

theorem processRecord_ofFragment (type : UInt8) {fragment : Bytes} (h : fragment.length < 256 ^ 2) :
    processRecord (Record.ofFragment type fragment h).toTLSPlaintext =
      .ok (Rfc.plaintextRecord type fragment) := by
  rw [processRecord_eq, encode_ofFragment]

theorem htons_uint16Of_be {n : ℕ} (h : n < 256 ^ 2) :
    htons (uint16Of (be 2 n)) = UInt16.ofNat n := by
  obtain ⟨b0, b1, hb⟩ : ∃ b0 b1, be 2 n = [b0, b1] := ⟨_, _, rfl⟩
  have hv : value [b0, b1] = n := by rw [← hb, value_be_of_lt h]
  apply UInt16.toNat_inj.mp
  rw [toNat_ofNat_uint16 h, hb]
  exact (htons_load b0 b1).trans hv

/-- The four reads get exactly the bytes of a record, and build it from them. -/
theorem Record.reads (r : Record) : Reader.Reads recordReader r.encode r := by
  have hlength : htons (uint16Of (be 2 r.length.toNat)) = r.length := by
    rw [htons_uint16Of_be r.length.toNat_lt, UInt16.ofNat_toNat]
  have hfragment : Reader.Reads (fragmentReader r.type ⟨r.legacyRecordVersion, r.version_size⟩
      r.length) (r.fragment ++ []) r := .ask ⟨r.fragment, r.fragment_size⟩ .done
  rw [← hlength, List.append_nil] at hfragment
  exact .ask ⟨[r.type], rfl⟩ (.ask ⟨r.legacyRecordVersion, r.version_size⟩
    (.ask ⟨be 2 r.length.toNat, length_be 2 _⟩ hfragment))

/-- A record that the stream delivers is read as it is. -/
theorem readRecord_encode {socket : ByteStream} {r : Record} {rest : Bytes}
    (hp : socket.pending = r.encode ++ rest) (hd : socket.Delivers) :
    ∃ socket' : ByteStream, socket'.pending = rest ∧ socket'.Delivers ∧
      readRecord socket = .ok (r, socket') := by
  obtain ⟨socket', hp', hd', hrun⟩ := r.reads.run hp hd
  refine ⟨socket', hp', hd', ?_⟩
  rw [readRecord_eq_run, hrun]
  rfl

theorem readCode_ne_zero (i : ℕ) : readCode i ≠ 0 := by
  unfold readCode
  split <;> decide

/-- A record whose end is missing is not read. -/
theorem readRecord_truncated {socket : ByteStream} {r : Record} {rest : Bytes}
    (hp : r.encode = socket.pending ++ rest) (hrest : rest ≠ []) (hd : socket.Delivers) :
    ∃ rc, rc ≠ 0 ∧ readRecord socket = .error rc := by
  obtain ⟨i, hrun⟩ := r.reads.run_of_truncated hp hrest hd
  refine ⟨readCode i, readCode_ne_zero i, ?_⟩
  rw [readRecord_eq_run, hrun]
  rfl

/-! ### Sealing and opening -/

/-- What is sealed, as long as its length fits into 16 bits. The length in the
header is 16 more, and may not. -/
theorem encryptRecord_eq (rand : ℕ) {r : TLSPlaintext} (key : Block 32) (nonce : Block 12)
    (hfrag : r.fragment.length = r.length.toNat)
    (hlen : r.length.toNat + 1 + rand % 101 < 256 ^ 2) :
    encryptRecord S rand r key nonce =
      .ok (Rfc.sealRecord S r.fragment r.type (rand % 101) key nonce) := by
  have hread : readBytes r.fragment 0 r.length.toNat = .ok r.fragment := hfrag ▸ readBytes_self _
  have hpad : rand % (paddingMax - paddingMin + 1) + paddingMin = rand % 101 := rfl
  have hinner : (UInt16.ofNat (r.length.toNat + 1 + rand % 101)).toNat =
      (Rfc.innerPlaintext r.fragment r.type (rand % 101)).length := by
    rw [Rfc.length_innerPlaintext, hfrag, toNat_ofNat_uint16 hlen]
  have hsize : 1 + 2 + 2 + (Rfc.innerPlaintext r.fragment r.type (rand % 101)).length +
      aeadTagLength - 5 = (Rfc.innerPlaintext r.fragment r.type (rand % 101)).length + 16 := by
    simp only [aeadTagLength]
    omega
  have hheader : [23, 0x03, 0x03] ++ storeUint16 (htons (UInt16.ofNat
      ((Rfc.innerPlaintext r.fragment r.type (rand % 101)).length + 16))) =
        Rfc.recordHeader 23 ((Rfc.innerPlaintext r.fragment r.type (rand % 101)).length + 16) := by
    have hstore := writeUint16_eq (UInt16.ofNat
      ((Rfc.innerPlaintext r.fragment r.type (rand % 101)).length + 16))
    rw [UInt16.toNat_ofNat', show 2 ^ 16 = 256 ^ 2 by rfl, be_mod] at hstore
    exact congrArg _ hstore
  have hfill : fill (Rfc.innerPlaintext r.fragment r.type (rand % 101)).length
      (r.fragment ++ r.type :: List.replicate (rand % 101) 0) =
        .ok (Rfc.innerPlaintext r.fragment r.type (rand % 101)) := fill_eq rfl
  simp only [encryptRecord, hread, hpad, hinner, hsize, hheader, hfill, Checked.bind_ok,
    Block.length_val]
  rw [assert_of trivial, assert_of (by simp only [aeadTagLength]; omega), Checked.bind_ok,
    Checked.bind_ok, fill_eq (by simp)]
  simp [Rfc.sealRecord, Rfc.plaintextRecord]

/-- A longer inner plaintext is written past the end of its buffer. -/
theorem encryptRecord_overWrite (rand : ℕ) {r : TLSPlaintext} (key : Block 32) (nonce : Block 12)
    (hfrag : r.fragment.length = r.length.toNat)
    (hlen : 256 ^ 2 ≤ r.length.toNat + 1 + rand % 101) :
    encryptRecord S rand r key nonce = .error .overWrite := by
  have hread : readBytes r.fragment 0 r.length.toNat = .ok r.fragment := hfrag ▸ readBytes_self _
  have hpad : rand % (paddingMax - paddingMin + 1) + paddingMin = rand % 101 := rfl
  have hsize : (UInt16.ofNat (r.length.toNat + 1 + rand % 101)).toNat <
      (r.fragment ++ r.type :: List.replicate (rand % 101) 0).length := by
    have hlt := (UInt16.ofNat (r.length.toNat + 1 + rand % 101)).toNat_lt
    simp only [List.length_append, List.length_cons, List.length_replicate, hfrag]
    omega
  have hfill : fill (UInt16.ofNat (r.length.toNat + 1 + rand % 101)).toNat
      (r.fragment ++ r.type :: List.replicate (rand % 101) 0) = .error .overWrite := by
    rw [fill, if_neg hsize.ne', if_pos hsize]
  simp only [encryptRecord, hread, hpad, hfill, Checked.bind_ok, Checked.bind_error]

theorem paddingOffset_reverse (content : Bytes) {type : UInt8} (h : type ≠ 0) (padding : ℕ) :
    paddingOffset (Rfc.innerPlaintext content type padding).reverse = .ok padding := by
  rw [Rfc.innerPlaintext, List.reverse_append, List.reverse_cons, List.reverse_replicate,
    List.append_assoc]
  induction padding with
  | zero => simp [paddingOffset, h]
  | succ padding ih =>
    rw [List.replicate_succ, List.cons_append, paddingOffset, if_pos rfl, ih]
    rfl

/-- Opening a record whose plaintext has a type. -/
theorem decryptRecord_eq (heap : (n : ℕ) → Block n) (out : TLSPlaintext) {r : Record} {type : UInt8}
    {content : Bytes} {padding : ℕ} {key : Block 32} {nonce : Block 12} (ht : type ≠ 0)
    (hct : r.fragment.length = content.length + 1 + padding + 16)
    (hopen : S.aeadDecrypt r.fragment r.header nonce key =
      some (Rfc.innerPlaintext content type padding)) :
    decryptRecord S heap out r.toTLSPlaintext key nonce = (do
      let out := { out with type, legacyRecordVersion := r.legacyRecordVersion }
      let out ← out.overwrite content
      return (0, { out with length := UInt16.ofNat content.length,
                            fragment := (heap content.length).val })) := by
  have hsize : ((Rfc.innerPlaintext content type padding).length : ℤ) =
      r.length.toNat - aeadTagLength := by
    rw [← r.fragment_size, Rfc.length_innerPlaintext, hct]
    push_cast
    ring
  have hlast : (Rfc.innerPlaintext content type padding).length - 1 - padding = content.length := by
    rw [Rfc.length_innerPlaintext]
    omega
  have hheap : (heap ((Rfc.innerPlaintext content type padding).length - 1 - padding)).val =
      (heap content.length).val := by rw [hlast]
  have htype : readByte (Rfc.innerPlaintext content type padding) content.length = .ok type :=
    readByte_eq (List.drop_left' rfl)
  have hcontent : readBytes (Rfc.innerPlaintext content type padding) 0 content.length =
      .ok content := readBytes_eq (by rw [List.drop_zero, Rfc.innerPlaintext]) rfl
  obtain ⟨v0, v1, hversion⟩ := List.length_eq_two.mp r.version_size
  have hv0 : readByte [v0, v1] 0 = .ok v0 := rfl
  have hv1 : readByte [v0, v1] 1 = .ok v1 := rfl
  simp only [decryptRecord, processRecordHeaders_eq, r.readBytes_fragment, hopen, hsize,
    paddingOffset_reverse content ht, hheap, hlast, htype, hv0, hv1, hversion, hcontent,
    Checked.bind_ok, ne_eq, not_true_eq_false, if_false]

end TLS13
