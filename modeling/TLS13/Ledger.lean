import TLS13.Memory

/-! What the server leaves in use. Each function with a heap follows its plain
counterpart and gives back blocks that are in use only, and a ledger says which
blocks stay behind: of a refused message its buffers, of an answered one the buffer of
the ServerHello's extensions and the data that an eight-bit length does not reach. -/

namespace TLS13.Memory

open Lib

variable {F : Multiset Allocation}

/-- On any heap the program ends as the computation does, and leaves blocks of these
sizes in use beside those that were. -/
def LeavesInUse {α : Type} (m : Alloc α) (x : Checked α) (sizes : α → Multiset ℕ) : Prop :=
  ∀ h : Heap,
    match x with
    | .ok a =>
      ∃ (h' : Heap) (left : Multiset Allocation),
        m.run h = .ok (a, h') ∧ h'.live = left + h.live ∧ left.map Allocation.size = sizes a
    | .error e => m.run h = .error (.fault e)

/-- On any heap the program ends as the computation does, and leaves in use the
buffer of the bytes, of their length, and nothing else. -/
def Builds (m : Alloc (Bytes × Allocation)) (x : Checked Bytes) : Prop :=
  ∀ h : Heap,
    match x with
    | .ok bs =>
      ∃ (h' : Heap) (buf : Allocation),
        m.run h = .ok ((bs, buf), h') ∧ h'.live = {buf} + h.live ∧ buf.size = bs.length
    | .error e => m.run h = .error (.fault e)

/-- What `Builds` says, with the blocks in use before. -/
def Returned (F : Multiset Allocation) (bs : Bytes) (v : Bytes × Allocation)
    (G : Multiset Allocation) : Prop := v.1 = bs ∧ v.2.size = bs.length ∧ G = {v.2} + F

theorem builds_of_follows {m : Alloc (Bytes × Allocation)} {x : Checked Bytes}
    (h : ∀ F, Follows m F x (Returned F)) : Builds m x := by
  intro heap
  have hrun := h heap.live heap rfl
  cases x with
  | error e => exact hrun
  | ok bs =>
    obtain ⟨⟨_, buf⟩, heap', hm, rfl, hsize, hlive⟩ := hrun
    exact ⟨heap', buf, hm, hlive, hsize⟩

/-- The program does what the computation does, and leaves blocks of the stated
sizes beside those that were in use. -/
def Leaves {α : Type} (F : Multiset Allocation) (sizes : α → Multiset ℕ) (v v' : α)
    (G : Multiset Allocation) : Prop :=
  v' = v ∧ ∃ left : Multiset Allocation, left.map Allocation.size = sizes v ∧ G = left + F

theorem leaves_nothing {α : Type} {sizes : α → Multiset ℕ} {v : α} (h : sizes v = 0) :
    Leaves F sizes v v F := ⟨rfl, 0, by rw [h]; rfl, (zero_add F).symm⟩

theorem leavesInUse_of_follows {α : Type} {m : Alloc α} {x : Checked α} {sizes : α → Multiset ℕ}
    (h : ∀ F, Follows m F x (Leaves F sizes)) : LeavesInUse m x sizes := by
  intro heap
  have hrun := h heap.live heap rfl
  cases x with
  | error e => exact hrun
  | ok a =>
    obtain ⟨_, heap', hm, rfl, left, hsizes, hlive⟩ := hrun
    exact ⟨heap', left, hm, hlive, hsizes⟩

/-! ### Messages and records -/

theorem parseHandshake_follows (data : Bytes) (dataLength : ℕ) :
    Follows (parseHandshake data dataLength) F (TLS13.parseHandshake data dataLength)
      fun hs v G => v.1 = hs ∧ v.2.size = hs.length.toNat ∧ G = {v.2} + F := by
  refine .plain_bind fun msgType _ => ?_
  refine .plain_bind fun length _ => ?_
  refine .malloc_bind fun buf hbuf => ?_
  refine .plain_bind fun body _ => ?_
  exact .pure ⟨rfl, hbuf, rfl⟩

theorem processHandshake_follows (hs : Handshake) :
    Follows (processHandshake hs) F (TLS13.processHandshake hs) (Returned F) := by
  refine .plain_bind fun size _ => ?_
  refine .malloc_bind fun buf hbuf => ?_
  refine .plain_bind fun body _ => ?_
  exact .plain_last fun arr harr => .pure ⟨rfl, by rw [hbuf, length_of_fill harr], rfl⟩

theorem processRecord_follows (r : TLSPlaintext) :
    Follows (processRecord r) F (TLS13.processRecord r) (Returned F) := by
  refine .malloc_bind fun buf hbuf => ?_
  refine .plain_bind fun version _ => ?_
  refine .plain_bind fun fragment _ => ?_
  exact .plain_last fun arr harr => .pure ⟨rfl, by rw [hbuf, length_of_fill harr], rfl⟩

theorem processExtensions_follows (ea : ExtensionArray) :
    Follows (processExtensions ea) F (TLS13.processExtensions ea)
      fun bs v G => extensionsLength ea = .ok v.2.size ∧ Returned F bs v G := by
  refine .plain_bind fun length hlength => ?_
  refine .malloc_bind fun buf hbuf => ?_
  refine .plain_bind fun es _ => ?_
  refine .plain_bind fun bs _ => ?_
  exact .plain_last fun arr harr =>
    .pure ⟨by rw [hlength, hbuf], rfl, by rw [hbuf, length_of_fill harr], rfl⟩

/-- The buffer of the extensions stays behind. -/
theorem processServerHello_follows (sh : ServerHello) :
    Follows (processServerHello sh) F (TLS13.processServerHello sh)
      fun bs v G => ∃ ex, extensionsLength sh.extensions = .ok ex.size ∧
        Returned ({ex} + F) bs v G := by
  refine .malloc_bind fun buf hbuf => ?_
  refine .plain_bind fun version _ => ?_
  refine .plain_bind fun random _ => ?_
  refine .plain_bind fun id _ => ?_
  refine .plain_bind fun suite _ => ?_
  refine .plain_bind fun length _ => ?_
  refine .bind (processExtensions_follows sh.extensions) ?_
  rintro bs ⟨_, ex⟩ _ - ⟨hex, rfl, -, rfl⟩
  exact .plain_last fun arr harr =>
    .pure ⟨ex, hex, rfl, by rw [hbuf, length_of_fill harr], add_left_comm _ _ _⟩

/-! ### Extension arrays -/

/-- The blocks of an array: itself and the data of its entries. -/
def ExtensionPointers.blocks (p : ExtensionPointers) : Multiset Allocation :=
  p.array.elim 0 ({·}) + p.data

/-- The blocks have the sizes that the array and its entries need. The array of no
entry may be the null pointer. -/
structure ExtensionPointers.Holds (p : ExtensionPointers) (es : List Extension) : Prop where
  array : p.array = none ∧ es = [] ∨ ∃ a, p.array = some a ∧ a.size = es.length * sizeofExtension
  data : p.data.map Allocation.size = es.map fun e => e.extensionDataLength.toNat

theorem copyExtensions_follows (data : Bytes) (count iter : ℕ) :
    Follows (copyExtensions data count iter) F (TLS13.copyExtensions data count iter)
      fun es v G => v.1 = es ∧ es.length = count ∧
        v.2.map Allocation.size = es.map (fun e => e.extensionDataLength.toNat) ∧
          G = (v.2 : Multiset Allocation) + F := by
  induction count generalizing iter F with
  | zero => exact .pure ⟨rfl, rfl, rfl, (zero_add F).symm⟩
  | succ count ih =>
    refine .plain_bind fun type _ => ?_
    refine .plain_bind fun length _ => ?_
    refine .malloc_bind fun buf hbuf => ?_
    refine .plain_bind fun bs _ => ?_
    refine .bind (ih _) ?_
    rintro es ⟨_, bufs⟩ _ - ⟨rfl, hlen, hsizes, rfl⟩
    refine .pure ⟨rfl, congrArg Nat.succ hlen, ?_, ?_⟩
    · rw [List.map_cons, List.map_cons, hsizes, hbuf]
    · rw [← Multiset.cons_coe, ← Multiset.singleton_add, add_left_comm, add_assoc]

/-- The sizes of the data of extensions. -/
def dataSizes (es : List Extension) : Multiset ℕ := es.map fun e => e.extensionDataLength.toNat

theorem parseExtensions_follows (data : Bytes) (dataLength : ℕ) :
    Follows (parseExtensions data dataLength) F (TLS13.parseExtensions data dataLength)
      fun ea v G => v.1 = ea ∧ v.2.Holds ea.array ∧ ea.length.toNat ≤ ea.array.length ∧
        v.2.blocks.map Allocation.size =
          {ea.array.length * sizeofExtension} + dataSizes ea.array ∧ G = v.2.blocks + F := by
  refine .plain_bind fun count _ => ?_
  refine .malloc_bind fun array harray => ?_
  refine .bind (copyExtensions_follows data count 0) ?_
  rintro es ⟨es', bufs⟩ _ - ⟨hes, hlen, hsizes, rfl⟩
  obtain rfl : es' = es := hes
  refine .pure ⟨rfl, ⟨.inr ⟨array, rfl, by rw [harray, ← hlen]⟩, hsizes⟩, ?_, ?_, ?_⟩
  · show (UInt8.ofNat count).toNat ≤ es'.length
    rw [hlen, UInt8.toNat_ofNat']
    exact Nat.mod_le _ _
  · show (({array} : Multiset Allocation) + bufs).map Allocation.size = _
    rw [Multiset.map_add, Multiset.map_singleton, Multiset.map_coe, hsizes, harray, ← hlen]
    rfl
  · exact (add_left_comm _ _ _).trans (add_assoc _ _ _).symm

theorem ExtensionPointers.Holds.length_data {p : ExtensionPointers} {es : List Extension}
    (h : p.Holds es) : p.data.length = es.length := by
  have hmap := congrArg List.length h.data
  simpa using hmap

theorem freeData_follows {n : ℕ} {bufs : List Allocation} (h : n ≤ bufs.length) :
    Follows (freeData n bufs) (bufs + F) (.ok () : Checked Unit)
      fun _ _ G => G = (bufs.drop n : Multiset Allocation) + F := by
  induction n generalizing bufs with
  | zero => exact .pure rfl
  | succ n ih =>
    cases bufs with
    | nil => exact absurd h (by simp)
    | cons buf bufs =>
      have hblocks : ((buf :: bufs : List Allocation) : Multiset Allocation) + F =
          {buf} + (bufs + F) := by
        rw [← Multiset.cons_coe, ← Multiset.singleton_add, add_assoc]
      exact .free_bind hblocks (ih (Nat.le_of_succ_le_succ h))

/-- What an eight-bit length does not reach stays behind. -/
theorem freeExtensions_follows {ea : ExtensionArray} {p : ExtensionPointers}
    (h : p.Holds ea.array) (hlen : ea.length.toNat ≤ ea.array.length) :
    Follows (freeExtensions ea p) (p.blocks + F) (.ok () : Checked Unit)
      fun _ _ G => G = (p.data.drop ea.length.toNat : Multiset Allocation) + F := by
  have hdata : ea.length.toNat ≤ p.data.length := h.length_data.symm ▸ hlen
  rcases h.array with ⟨hnone, -⟩ | ⟨array, hsome, -⟩
  · rw [ExtensionPointers.blocks, freeExtensions, hnone, Option.elim_none, zero_add]
    refine .before (freeData_follows hdata) ?_
    rintro _ _ rfl
    exact .pure rfl
  · have hblocks : p.blocks + F = p.data + ({array} + F) := by
      rw [ExtensionPointers.blocks, hsome]
      exact (congrArg (· + F) (add_comm _ _)).trans (add_assoc _ _ _)
    rw [hblocks, freeExtensions, hsome]
    refine .before (freeData_follows hdata) ?_
    rintro _ _ rfl
    exact .free_last (add_left_comm _ _ _) rfl

/-- The length counts the entries, and one more fits. -/
structure Room (ea : ExtensionArray) : Prop where
  count : ea.array.length = ea.length.toNat
  lt : ea.array.length < 255

theorem Room.toNat_succ {ea : ExtensionArray} (h : Room ea) :
    (ea.length + 1).toNat = ea.array.length + 1 := (growExtensions_eq h.count h.lt).1

theorem Room.growExtensions {ea : ExtensionArray} (h : Room ea) :
    TLS13.growExtensions ea 1 = .ok ⟨ea.length + 1, ea.array⟩ := (growExtensions_eq h.count h.lt).2

theorem Room.setLast {ea ea' : ExtensionArray} (h : Room ea) {e : Extension}
    (hset : (⟨ea.length + 1, ea.array⟩ : ExtensionArray).setLast e = .ok ea') :
    ea' = ⟨ea.length + 1, ea.array ++ [e]⟩ :=
  (Except.ok.inj ((setLast_eq h.toNat_succ e).symm.trans hset)).symm

/-- A first array is allocated, another one is given back for a longer one. -/
theorem growExtensions_follows {ea : ExtensionArray} {p : ExtensionPointers} (h : Room ea)
    (hp : p.Holds ea.array) :
    Follows (growExtensions ea p 1) (p.blocks + F) (.ok () : Checked Unit)
      fun _ v G => v.1 = ⟨ea.length + 1, ea.array⟩ ∧
        ∃ a, v.2 = ⟨some a, p.data⟩ ∧ a.size = (ea.array.length + 1) * sizeofExtension ∧
          G = {a} + (p.data + F) := by
  have harray : ea.array.take (ea.array.length + 1) = ea.array :=
    List.take_of_length_le (Nat.le_succ _)
  have hdata : p.data.take (ea.array.length + 1) = p.data := by
    rw [← hp.length_data]
    exact List.take_of_length_le (Nat.le_succ _)
  have hpos : (ea.array.length + 1) * sizeofExtension ≠ 0 :=
    Nat.mul_ne_zero (Nat.succ_ne_zero _) (by decide)
  rw [growExtensions]
  simp only [show UInt8.ofNat 1 = 1 by rfl, h.toNat_succ, harray, hdata, mul_comm sizeofExtension]
  rcases hp.array with ⟨hnone, -⟩ | ⟨array, hsome, -⟩
  · simp only [ExtensionPointers.blocks, hnone, Option.elim_none, zero_add, map_eq_pure_bind,
      bind_assoc]
    refine .malloc_bind fun a ha => ?_
    exact .pure ⟨rfl, a, rfl, ha, rfl⟩
  · have hblocks : p.blocks + F = {array} + (p.data + F) := by
      rw [ExtensionPointers.blocks, hsome]
      exact add_assoc _ _ _
    simp only [hsome, realloc, if_neg hpos, map_eq_pure_bind, bind_assoc]
    refine .free_bind hblocks ?_
    refine .malloc_bind fun a ha => ?_
    exact .pure ⟨rfl, a, rfl, ha, rfl⟩

/-- The pointers after an entry was added, with its data at the end. -/
theorem holds_setLast {ea : ExtensionArray} {p : ExtensionPointers} (h : Room ea)
    (hp : p.Holds ea.array) {a buf : Allocation}
    (ha : a.size = (ea.array.length + 1) * sizeofExtension) {e : Extension}
    (hbuf : buf.size = e.extensionDataLength.toNat) :
    ((⟨some a, p.data⟩ : ExtensionPointers).setLast ⟨ea.length + 1, ea.array⟩ buf).Holds
        (ea.array ++ [e]) ∧
      {buf} + ({a} + (p.data + F)) =
        ((⟨some a, p.data⟩ : ExtensionPointers).setLast ⟨ea.length + 1, ea.array⟩ buf).blocks +
          F := by
  have htake : p.data.take ((ea.length + 1).toNat - 1) = p.data := by
    rw [h.toNat_succ, Nat.add_sub_cancel, ← hp.length_data]
    exact List.take_length
  simp only [ExtensionPointers.setLast, htake]
  refine ⟨⟨.inr ⟨a, rfl, by rw [ha, List.length_append]; rfl⟩, ?_⟩, ?_⟩
  · rw [List.map_append, List.map_append, hp.data, List.map_singleton, List.map_singleton, hbuf]
  · show {buf} + ({a} + ((p.data : Multiset Allocation) + F)) =
      {a} + ((p.data ++ [buf] : List Allocation) : Multiset Allocation) + F
    rw [← Multiset.coe_add, Multiset.coe_singleton]
    ac_rfl

/-- An array with its pointers, all of them in use. -/
def ArrayInUse (F : Multiset Allocation) (ea : ExtensionArray)
    (v : ExtensionArray × ExtensionPointers) (G : Multiset Allocation) : Prop :=
  v.1 = ea ∧ v.2.Holds ea.array ∧ ea.array.length = ea.length.toNat ∧ G = v.2.blocks + F

theorem arrayInUse_setLast {ea ea' : ExtensionArray} {p : ExtensionPointers} (h : Room ea)
    (hp : p.Holds ea.array) {a buf : Allocation}
    (ha : a.size = (ea.array.length + 1) * sizeofExtension) {e : Extension}
    (hbuf : buf.size = e.extensionDataLength.toNat)
    (hset : (⟨ea.length + 1, ea.array⟩ : ExtensionArray).setLast e = .ok ea') :
    ArrayInUse F ea'
      (ea', (⟨some a, p.data⟩ : ExtensionPointers).setLast ea' buf)
      ({buf} + ({a} + (p.data + F))) := by
  obtain rfl := h.setLast hset
  obtain ⟨hholds, hblocks⟩ := holds_setLast (F := F) h hp ha hbuf
  exact ⟨rfl, hholds, by rw [h.toNat_succ, List.length_append]; rfl, hblocks⟩

theorem addExtension_follows {ea : ExtensionArray} {p : ExtensionPointers} (h : Room ea)
    (hp : p.Holds ea.array) (type length : UInt16) (data : Bytes) :
    Follows (addExtension ea p type length data) (p.blocks + F)
      (TLS13.addExtension ea type length data) (ArrayInUse F) := by
  rw [TLS13.addExtension, h.growExtensions, Checked.bind_ok]
  refine .before (growExtensions_follows h hp) ?_
  rintro ⟨_, _⟩ _ ⟨rfl, a, rfl, ha, rfl⟩
  refine .malloc_bind fun buf hbuf => ?_
  refine .plain_bind fun bs _ => ?_
  exact .plain_last fun ea' hset => .pure (arrayInUse_setLast h hp ha hbuf hset)

theorem addKeyShare_follows {ea : ExtensionArray} {p : ExtensionPointers} (h : Room ea)
    (hp : p.Holds ea.array) (group : UInt16) (key : Bytes) {length : UInt16}
    (hlen : 2 + 2 + length.toNat < 256 ^ 2) :
    Follows (addKeyShare ea p group key length) (p.blocks + F)
      (TLS13.addKeyShare ea group key length) (ArrayInUse F) := by
  rw [TLS13.addKeyShare, h.growExtensions, Checked.bind_ok]
  refine .before (growExtensions_follows h hp) ?_
  rintro ⟨_, _⟩ _ ⟨rfl, a, rfl, ha, rfl⟩
  refine .malloc_bind fun buf hbuf => ?_
  refine .plain_bind fun bs _ => ?_
  refine .plain_bind fun data _ => ?_
  rw [← toNat_ofNat_uint16 hlen] at hbuf
  exact .plain_last fun ea' hset => .pure (arrayInUse_setLast h hp ha hbuf hset)

/-! ### The hello messages -/

/-- The blocks of the fields in front of the extensions. -/
def HelloPointers.fields (p : HelloPointers) : Multiset Allocation :=
  {p.legacySessionId} + ({p.cipherSuites} + {p.legacyCompressionMethods})

/-- The blocks of a ClientHello. -/
def HelloPointers.blocks (p : HelloPointers) : Multiset Allocation :=
  p.fields + p.extensions.blocks

/-- The sizes of the fields of a ClientHello on the heap. -/
def fieldSizes (ch : ClientHello) : Multiset ℕ :=
  {ch.legacySessionIdLength.toNat} + ({ch.cipherSuitesLength.toNat} +
    {ch.legacyCompressionMethodsLength.toNat})

/-- All that a ClientHello takes on the heap. -/
def helloSizes (ch : ClientHello) : Multiset ℕ :=
  fieldSizes ch + ({ch.extensions.array.length * sizeofExtension} + dataSizes ch.extensions.array)

theorem parseHelloFields_follows (data : Bytes) :
    Follows (parseHelloFields data) F (TLS13.parseHelloFields data) fun v v' G =>
      v'.1 = v ∧ v'.2.fields.map Allocation.size = fieldSizes v.1 ∧ G = v'.2.fields + F := by
  refine .plain_bind fun version _ => ?_
  refine .plain_bind fun random _ => ?_
  refine .plain_bind fun idLength _ => ?_
  refine .malloc_bind fun idBuf hid => ?_
  refine .plain_bind fun id _ => ?_
  refine .plain_bind fun suitesLength _ => ?_
  refine .malloc_bind fun suitesBuf hsuites => ?_
  refine .plain_bind fun suites _ => ?_
  refine .plain_bind fun methodsLength _ => ?_
  refine .malloc_bind fun methodsBuf hmethods => ?_
  refine .plain_bind fun methods _ => ?_
  refine .plain_bind fun length _ => ?_
  refine .pure ⟨rfl, ?_, ?_⟩
  · simp only [HelloPointers.fields, Multiset.map_add, Multiset.map_singleton, hid, hsuites,
      hmethods, fieldSizes]
  · simp only [HelloPointers.fields]
    ac_rfl

theorem parseClientHello_follows (data : Bytes) (dataLength : ℕ) :
    Follows (parseClientHello data dataLength) F (TLS13.parseClientHello data dataLength)
      fun ch v G => v.1 = ch ∧ v.2.extensions.Holds ch.extensions.array ∧
        ch.extensions.length.toNat ≤ ch.extensions.array.length ∧
          v.2.blocks.map Allocation.size = helloSizes ch ∧ G = v.2.blocks + F := by
  refine .bind (parseHelloFields_follows data) ?_
  rintro _ ⟨⟨ch, iter⟩, fields⟩ _ - ⟨rfl, hfields, rfl⟩
  refine .bind (parseExtensions_follows _ _) ?_
  rintro ea ⟨_, ptrs⟩ _ - ⟨rfl, hholds, hlen, hsizes, rfl⟩
  refine .pure ⟨rfl, hholds, hlen, ?_, ?_⟩
  · rw [HelloPointers.blocks, Multiset.map_add, hsizes, helloSizes]
    exact congrArg (· + _) hfields
  · rw [HelloPointers.blocks, add_assoc, add_left_comm]
    rfl

theorem freeClientHello_follows {ch : ClientHello} {p : HelloPointers}
    (h : p.extensions.Holds ch.extensions.array)
    (hlen : ch.extensions.length.toNat ≤ ch.extensions.array.length) :
    Follows (freeClientHello ch p) (p.blocks + F) (.ok () : Checked Unit)
      fun _ _ G => G = (p.extensions.data.drop ch.extensions.length.toNat : Multiset Allocation) +
        F := by
  rw [HelloPointers.blocks, HelloPointers.fields, add_assoc, add_assoc, add_assoc]
  refine .free_bind rfl ?_
  refine .free_bind rfl ?_
  refine .free_bind rfl ?_
  exact freeExtensions_follows h hlen

variable (S : Sodium)

/-! ### Protection and key schedule -/

theorem encryptRecord_follows (rand : ℕ) (r : TLSPlaintext) (key : Block 32) (nonce : Block 12) :
    Follows (encryptRecord S rand r key nonce) F (TLS13.encryptRecord S rand r key nonce)
      (Returned F) := by
  refine .malloc_bind fun innerBuf _ => ?_
  refine .plain_bind fun content _ => ?_
  refine .plain_bind fun inner _ => ?_
  refine .malloc_bind fun cipherBuf _ => ?_
  refine .plain_bind fun _ _ => ?_
  refine .plain_bind fun _ _ => ?_
  refine .malloc_bind fun buf hbuf => ?_
  refine .plain_last fun arr harr => ?_
  refine .free_bind (G := {cipherBuf} + ({buf} + F)) (by ac_rfl) ?_
  refine .free_bind rfl ?_
  exact .pure ⟨rfl, by rw [hbuf, length_of_fill harr], rfl⟩

/-- A program that computes what its counterpart does and leaves no block behind. -/
abbrev Restores {α : Type} (m : Alloc α) (x : Checked α) : Prop :=
  ∀ F, Follows m F x fun a b G => b = a ∧ G = F

theorem Restores.bind {α β : Type} {m : Alloc α} {x : Checked α} {f : α → Alloc β}
    {g : α → Checked β} (h : Restores m x) (hf : ∀ a, Restores (f a) (g a)) :
    Restores (m >>= f) (x >>= g) := by
  intro F
  refine .bind (h F) ?_
  rintro a _ _ - ⟨rfl, rfl⟩
  exact hf _ _

theorem hkdfExpandLabel_restores (secret : Block 32) (label context : Bytes) (contextLength : UInt8)
    (length : UInt16) :
    Restores (hkdfExpandLabel S secret label context contextLength length)
      (TLS13.hkdfExpandLabel S secret label context contextLength length) := by
  intro F
  refine .malloc_bind fun buf _ => ?_
  refine .plain_bind fun info _ => ?_
  refine .free_bind rfl ?_
  exact .pure ⟨rfl, rfl⟩

theorem processHandshakeSecret_restores (sharedSecret : Block 32)
    (derivedSecret : Option (Block 32)) :
    Restores (processHandshakeSecret S sharedSecret derivedSecret)
      (TLS13.processHandshakeSecret S sharedSecret derivedSecret) := by
  cases derivedSecret with
  | none => exact (hkdfExpandLabel_restores S _ _ _ _ _).bind fun ds F => .pure ⟨rfl, rfl⟩
  | some ds => exact fun F => .pure ⟨rfl, rfl⟩

theorem processHandshakeTrafficSecret_restores (label : Bytes)
    (sharedSecret transciptHash : Block 32) :
    Restores (processHandshakeTrafficSecret S label sharedSecret transciptHash)
      (TLS13.processHandshakeTrafficSecret S label sharedSecret transciptHash) :=
  (hkdfExpandLabel_restores S _ _ _ _ _).bind fun ds =>
    (processHandshakeSecret_restores S sharedSecret (some ds)).bind fun _ =>
      hkdfExpandLabel_restores S _ _ _ _ _

theorem deriveKeys_restores (w : World) : Restores (deriveKeys S w) (TLS13.deriveKeys S w) := by
  refine (processHandshakeSecret_restores S _ none).bind fun _ => ?_
  refine (processHandshakeTrafficSecret_restores S _ _ _).bind fun _ => ?_
  refine (processHandshakeTrafficSecret_restores S _ _ _).bind fun _ => ?_
  refine (hkdfExpandLabel_restores S _ _ _ _ _).bind fun _ => ?_
  refine (hkdfExpandLabel_restores S _ _ _ _ _).bind fun _ => ?_
  refine (hkdfExpandLabel_restores S _ _ _ _ _).bind fun _ => ?_
  refine (hkdfExpandLabel_restores S _ _ _ _ _).bind fun _ => ?_
  exact fun F => .pure ⟨rfl, rfl⟩

/-! ### The state machine -/

theorem extensionsLength_reply (publicKey : Block 32) :
    extensionsLength (replyExtensions publicKey) = .ok 46 := by
  have hext := length_serverHello_extensions (Block.zero 32) [] publicKey
  have hlength := extensionsLength_ofRfc (show (serverHello (Block.zero 32) []
    publicKey).extensions.length < 256 by show 2 < 256; norm_num) (by omega)
  rw [hext] at hlength
  exact hlength

/-- The answer gives back all that it allocates but the buffer of its extensions. -/
theorem sendServerHello_follows (ent : Entropy) (w : World) (ch : ClientHello)
    (publicKey : Block 32) :
    Follows (sendServerHello ent w ch publicKey) F (TLS13.sendServerHello ent w ch publicKey)
      fun v v' G => v' = v ∧ v.1 = 0 ∧ ∃ ex : Allocation, ex.size = 46 ∧ G = {ex} + F := by
  have hversions := @addExtension_follows F ⟨0, []⟩ ⟨none, []⟩
    ⟨rfl, by decide⟩ ⟨.inl ⟨rfl, rfl⟩, rfl⟩ supportedVersionsExtensionType 2 [0x03, 0x04]
  rw [show (⟨none, []⟩ : ExtensionPointers).blocks + F = F from zero_add F] at hversions
  refine .bind hversions ?_
  rintro ea ⟨_, p⟩ _ hea ⟨rfl, hp, hcount, rfl⟩
  obtain rfl := Except.ok.inj (hea.symm.trans (@addSupportedVersions_ofRfc [] (by decide)))
  refine .bind (addKeyShare_follows ⟨hcount, show 1 < 255 by decide⟩ hp _ _ (by decide)) ?_
  rintro ea ⟨_, p⟩ _ hea ⟨rfl, hp, hcount, rfl⟩
  obtain rfl : _ = replyExtensions publicKey := Except.ok.inj (hea.symm.trans
    (addKeyShare_ofRfc (by decide) namedGroupX25519 publicKey.length_val))
  refine .plain_bind fun length _ => ?_
  refine .bind (processServerHello_follows _) ?_
  rintro bs ⟨_, body⟩ _ - ⟨ex, hex, rfl, -, rfl⟩
  have hsize : ex.size = 46 := (Except.ok.inj (hex.symm.trans (extensionsLength_reply publicKey)))
  refine .bind (processHandshake_follows _) ?_
  rintro hs ⟨_, fragment⟩ _ - ⟨rfl, -, rfl⟩
  refine .malloc_bind fun version _ => ?_
  refine .bind (processRecord_follows _) ?_
  rintro rs ⟨_, buf⟩ _ - ⟨rfl, -, rfl⟩
  refine .plain_bind fun sent _ => ?_
  refine .free_bind rfl ?_
  refine .free_bind (G := {version} + ({ex} + ({body} + (p.blocks + F)))) (by dsimp only; ac_rfl) ?_
  refine .free_bind rfl ?_
  refine .free_bind (G := p.blocks + ({ex} + F)) (by ac_rfl) ?_
  refine .before (freeExtensions_follows hp hcount.ge) ?_
  rintro _ _ rfl
  have hdrop : p.data.drop (replyExtensions publicKey).length.toNat = [] :=
    List.drop_of_length_le (by rw [hp.length_data]; exact hcount.le)
  refine .pure ⟨rfl, rfl, ex, hsize, ?_⟩
  rw [hdrop]
  exact zero_add _

/-- What the exchange of the two hello messages leaves in use, by its code. -/
def exchangeSizes (rc : ℤ) : Multiset ℕ := if rc = 0 then {46} else 0

theorem clientHelloServerHelloHandshake_follows (ent : Entropy) (w : World) (ch : ClientHello) :
    Follows (clientHelloServerHelloHandshake S ent w ch) F
      (TLS13.clientHelloServerHelloHandshake S ent w ch) (Leaves F fun v => exchangeSizes v.1) := by
  rw [clientHelloServerHelloHandshake, TLS13.clientHelloServerHelloHandshake]
  by_cases hsuite : w.state.cipherSuite = tlsChacha20Poly1305Sha256Num
  · rw [if_pos hsuite, if_pos hsuite]
    cases S.scalarmultBase ent.serverPrivateKey with
    | none => exact .pure (leaves_nothing rfl)
    | some publicKey =>
      refine .plain_bind fun clientKey _ => ?_
      cases S.scalarmult ent.serverPrivateKey clientKey with
      | none => exact .pure (leaves_nothing rfl)
      | some sharedSecret =>
        refine (sendServerHello_follows ent _ ch publicKey).mono ?_
        rintro ⟨rc, w'⟩ _ _ - ⟨rfl, hrc, ex, hex, rfl⟩
        obtain rfl : rc = 0 := hrc
        refine ⟨rfl, {ex}, ?_, rfl⟩
        rw [Multiset.map_singleton, hex]
        rfl
  · rw [if_neg hsuite, if_neg hsuite]
    exact .pure (leaves_nothing rfl)

theorem sendNullEncryptedExtensions_restores (ent : Entropy) (w : World) :
    Restores (sendNullEncryptedExtensions S ent w) (TLS13.sendNullEncryptedExtensions S ent w) := by
  intro F
  rw [sendNullEncryptedExtensions, TLS13.sendNullEncryptedExtensions]
  by_cases hstate : w.state.state = .encrypted
  · rw [if_neg (not_not.mpr hstate), if_neg (not_not.mpr hstate)]
    refine .bind (processHandshake_follows _) ?_
    rintro hs ⟨_, fragment⟩ _ - ⟨rfl, -, rfl⟩
    refine .bind (encryptRecord_follows S _ _ _ _) ?_
    rintro bs ⟨_, buf⟩ _ - ⟨rfl, -, rfl⟩
    refine .free_bind rfl ?_
    refine .free_bind rfl ?_
    exact .pure ⟨rfl, rfl⟩
  · rw [if_pos hstate, if_pos hstate]
    exact .pure ⟨rfl, rfl⟩

/-- The sizes of what a call leaves in use, by its record and its code. -/
def leftover (record : TLSPlaintext) (rc : ℤ) : Multiset ℕ :=
  if record.type = handshakeType then
    match TLS13.parseHandshake record.fragment record.length.toNat with
    | .error _ => 0
    | .ok handshake =>
      if handshake.msgType ≠ clientHelloType then {handshake.length.toNat}
      else
        match TLS13.parseClientHello handshake.body handshake.length.toNat with
        | .error _ => 0
        | .ok ch =>
          if rc = 0 then {46} + dataSizes (ch.extensions.array.drop ch.extensions.length.toNat)
          else helloSizes ch
  else 0

/-- A state with keys is encrypted. -/
theorem deriveKeys_state {w w' : World}
    (h : TLS13.deriveKeys S (w.setState { w.state with state := .encrypted }) = .ok w') :
    w'.state.state = .encrypted := by
  rw [deriveKeys_eq] at h
  cases h
  rfl

section Leftover

variable {r : TLSPlaintext} {hs : Handshake}

theorem leftover_of_clientHello {ch : ClientHello} (hr : r.type = handshakeType)
    (hparse : TLS13.parseHandshake r.fragment r.length.toNat = .ok hs)
    (hmsg : hs.msgType = clientHelloType)
    (hch : TLS13.parseClientHello hs.body hs.length.toNat = .ok ch) (rc : ℤ) :
    leftover r rc =
      if rc = 0 then {46} + dataSizes (ch.extensions.array.drop ch.extensions.length.toNat)
      else helloSizes ch := by
  simp only [leftover, if_pos hr, hparse, hmsg, hch, ne_eq, not_true_eq_false, if_false]

theorem leftover_of_otherMessage (hr : r.type = handshakeType)
    (hparse : TLS13.parseHandshake r.fragment r.length.toNat = .ok hs)
    (hmsg : hs.msgType ≠ clientHelloType) (rc : ℤ) : leftover r rc = {hs.length.toNat} := by
  simp only [leftover, if_pos hr, hparse, ne_eq, hmsg, not_false_eq_true, if_true]

end Leftover

/-- Once the ServerHello is written the rest of the call gives back the ClientHello,
up to the data that its length does not reach. -/
theorem finishHandshake_follows (ent : Entropy) (w : World) {ch : ClientHello} {p : HelloPointers}
    (hp : p.extensions.Holds ch.extensions.array)
    (hlen : ch.extensions.length.toNat ≤ ch.extensions.array.length) :
    Follows (do
        freeClientHello ch p
        let w ← deriveKeys S (w.setState { w.state with state := .encrypted })
        let (rc, w) ← sendNullEncryptedExtensions S ent w
        if rc ≠ 0 then return ((-4 : ℤ), w)
        else return (0, w)) (p.blocks + F)
      (do
        let w ← TLS13.deriveKeys S (w.setState { w.state with state := .encrypted })
        let (rc, w) ← TLS13.sendNullEncryptedExtensions S ent w
        if rc ≠ 0 then return ((-4 : ℤ), w)
        else return (0, w))
      fun v v' G => v' = v ∧ v.1 = 0 ∧
        G = (p.extensions.data.drop ch.extensions.length.toNat : Multiset Allocation) + F := by
  refine .before (freeClientHello_follows hp hlen) ?_
  rintro _ _ rfl
  refine .bind (deriveKeys_restores S _ _) ?_
  rintro w2 _ _ hkeys ⟨rfl, rfl⟩
  refine .bind (sendNullEncryptedExtensions_restores S ent _ _) ?_
  rintro ⟨rc, w3⟩ _ _ hsend ⟨rfl, rfl⟩
  rw [sendNullEncryptedExtensions_eq S (deriveKeys_state S hkeys)] at hsend
  cases hsend
  dsimp only
  rw [if_neg (not_not.mpr rfl), if_neg (not_not.mpr rfl)]
  exact .pure ⟨rfl, rfl, rfl⟩

theorem handleHandshake_follows (ent : Entropy) (w : World) {r : TLSPlaintext}
    (hr : r.type = handshakeType) :
    Follows (handleHandshake S ent w r) F (TLS13.handleHandshake S ent w r)
      (Leaves F fun v => leftover r v.1) := by
  refine .bind (parseHandshake_follows _ _) ?_
  rintro _ ⟨hs, body⟩ _ hparse ⟨rfl, hbody, rfl⟩
  by_cases hmsg : hs.msgType = clientHelloType
  · dsimp only
    rw [if_neg (not_not.mpr hmsg), if_neg (not_not.mpr hmsg)]
    refine .bind (parseClientHello_follows _ _) ?_
    rintro _ ⟨ch, p⟩ _ hch ⟨rfl, hp, hlen, hsizes, rfl⟩
    have hleftover := leftover_of_clientHello hr hparse hmsg hch
    refine .free_bind (G := p.blocks + F) (by dsimp only; ac_rfl) ?_
    refine .plain_bind fun received _ => ?_
    refine .bind (clientHelloServerHelloHandshake_follows S _ _ _) ?_
    rintro _ ⟨rc, w'⟩ _ - ⟨rfl, left, hleft, rfl⟩
    dsimp only
    by_cases hrc : rc = 0
    · subst hrc
      rw [if_neg (not_not.mpr rfl), if_neg (not_not.mpr rfl), add_left_comm]
      refine (finishHandshake_follows S ent w' hp hlen).mono ?_
      rintro ⟨rc, w''⟩ _ _ - ⟨rfl, hrc, rfl⟩
      obtain rfl : rc = 0 := hrc
      refine ⟨rfl, _, ?_, (add_assoc _ _ _).symm⟩
      show Multiset.map Allocation.size _ = leftover r 0
      rw [hleftover, if_pos rfl, Multiset.map_add, Multiset.map_coe, List.map_drop, hp.data,
        ← List.map_drop, hleft, add_comm]
      rfl
    · rw [if_pos hrc, if_pos hrc]
      have hnone : left.map Allocation.size = 0 := hleft.trans (if_neg hrc)
      refine .pure ⟨rfl, _, ?_, (add_assoc _ _ _).symm⟩
      show Multiset.map Allocation.size _ = leftover r (-3)
      rw [hleftover, if_neg (by decide), Multiset.map_add, hnone, hsizes]
      exact zero_add _
  · dsimp only
    rw [if_pos hmsg, if_pos hmsg]
    refine .pure ⟨rfl, {body}, ?_, rfl⟩
    rw [Multiset.map_singleton, hbody]
    exact (leftover_of_otherMessage hr hparse hmsg (-2)).symm

/-- A call makes no use of `free` that it should not, and leaves what its ledger says. -/
theorem mainStateMech_follows (ent : Entropy) (w : World) (r : TLSPlaintext) :
    Follows (mainStateMech S ent w r) F (TLS13.mainStateMech S ent w r)
      (Leaves F fun v => leftover r v.1) := by
  refine .plain_bind fun _ _ => ?_
  by_cases htype : r.type = handshakeType
  · rw [if_pos htype, if_pos htype]
    exact handleHandshake_follows S ent _ htype
  · have hnone (rc : ℤ) : leftover r rc = 0 := if_neg htype
    rw [if_neg htype, if_neg htype]
    split
    · refine .plain_bind fun _ _ => ?_
      refine .plain_bind fun _ _ => ?_
      exact .pure (leaves_nothing (hnone 0))
    · split
      · exact .pure (leaves_nothing (hnone 0))
      · split
        · exact .pure (leaves_nothing (hnone _))
        · exact .pure (leaves_nothing (hnone _))

/-! ### The loop -/

/-- What a run of the loop leaves in use. -/
def leftoverAll (calls : List Call) : Multiset ℕ :=
  (calls.map fun c => leftover c.record.toTLSPlaintext c.code).sum

theorem serveAll_follows (is : List Input) (w : World) :
    Follows (serveAll S w is) F (TLS13.serveAll S w is) (Leaves F fun v => leftoverAll v.1) := by
  induction is generalizing w F with
  | nil => exact .pure (leaves_nothing rfl)
  | cons i is ih =>
    refine .malloc_bind fun version _ => ?_
    refine .malloc_bind fun fragment _ => ?_
    refine .bind (mainStateMech_follows S i.entropy w i.record.toTLSPlaintext) ?_
    rintro _ ⟨rc, w'⟩ _ - ⟨rfl, left, hleft, rfl⟩
    refine .free_bind (G := {version} + (left + F)) (by ac_rfl) ?_
    refine .free_bind rfl ?_
    dsimp only
    by_cases hrc : rc = 0
    · rw [if_neg (not_not.mpr hrc), if_neg (not_not.mpr hrc)]
      refine .bind (ih w') ?_
      rintro _ ⟨calls, u⟩ _ - ⟨rfl, rest, hrest, rfl⟩
      refine .pure ⟨rfl, rest + left, ?_, (add_assoc _ _ _).symm⟩
      rw [Multiset.map_add, hrest, hleft, add_comm]
      rfl
    · rw [if_pos hrc, if_pos hrc]
      refine .pure ⟨rfl, left, ?_, rfl⟩
      rw [hleft]
      exact (add_zero _).symm

/-- The loop ends as the loop without a heap does, no `free` in it meets a block that
is not in use, and what a run leaves in use is what its calls leave. -/
theorem serveAll_ledger (w : World) (is : List Input) :
    LeavesInUse (serveAll S w is) (TLS13.serveAll S w is) fun v => leftoverAll v.1 :=
  leavesInUse_of_follows fun _ => serveAll_follows S is w

end TLS13.Memory
