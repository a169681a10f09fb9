import TLS13.Ledger

/-! What the functions around the loop leave in use: the builders of messages, the
opening of a record, and the state of the server from `init_TLS_SERVER_STATE` to
`free_TLS_SERVER_STATE`. A builder leaves the buffer that it returns and no other; the
two exceptions are `process_server_hello`, which keeps the block of its extensions,
and the state, of which the shared secret is never given back. -/

namespace TLS13.Memory

open Lib

variable {F : Multiset Allocation}

/-! ### Builders -/

theorem processCertificateEntry_follows (ce : CertificateEntry) :
    Follows (processCertificateEntry ce) F (TLS13.processCertificateEntry ce) (Returned F) := by
  refine .plain_bind fun length _ => ?_
  refine .plain_bind fun size _ => ?_
  refine .malloc_bind fun buf hbuf => ?_
  refine .plain_bind fun certData _ => ?_
  refine .bind (Q := fun bs bs' G => bs' = bs ∧ G = {buf} + F) ?_ ?_
  · by_cases hlength : UInt16.ofNat length ≠ 0
    · rw [if_pos hlength, if_pos hlength]
      refine .bind_last (processExtensions_follows ce.extensions) ?_
      rintro bs ⟨_, ex⟩ _ - ⟨-, rfl, -, rfl⟩
      refine .free_bind rfl ?_
      exact .pure ⟨rfl, rfl⟩
    · rw [if_neg hlength, if_neg hlength]
      exact .pure ⟨rfl, rfl⟩
  · rintro bs _ _ - ⟨rfl, rfl⟩
    exact .plain_last fun arr harr => .pure ⟨rfl, by rw [hbuf, length_of_fill harr], rfl⟩

theorem processEntries_follows (ces : List CertificateEntry) :
    Follows (processEntries ces) F (TLS13.processEntries ces) fun bs bs' G => bs' = bs ∧ G = F := by
  induction ces with
  | nil => exact .pure ⟨rfl, rfl⟩
  | cons ce ces ih =>
    refine .bind (processCertificateEntry_follows ce) ?_
    rintro bs ⟨_, buf⟩ _ - ⟨rfl, -, rfl⟩
    refine .free_bind rfl ?_
    refine .bind ih ?_
    rintro rest _ _ - ⟨rfl, rfl⟩
    exact .pure ⟨rfl, rfl⟩

theorem processCertificate_follows (c : Certificate) :
    Follows (processCertificate c) F (TLS13.processCertificate c) (Returned F) := by
  refine .plain_bind fun length _ => ?_
  refine .plain_bind fun size _ => ?_
  refine .malloc_bind fun buf hbuf => ?_
  refine .plain_bind fun context _ => ?_
  refine .plain_bind fun certs _ => ?_
  refine .bind (processEntries_follows certs) ?_
  rintro list _ _ - ⟨rfl, rfl⟩
  exact .plain_last fun arr harr => .pure ⟨rfl, by rw [hbuf, length_of_fill harr], rfl⟩

theorem processEncryptedExtensions_follows (ee : EncryptedExtensions) :
    Follows (processEncryptedExtensions ee) F (TLS13.processEncryptedExtensions ee)
      (Returned F) := by
  refine .plain_bind fun length _ => ?_
  refine .malloc_bind fun buf hbuf => ?_
  refine .bind (processExtensions_follows ee.extensions) ?_
  rintro bs ⟨_, ex⟩ _ - ⟨-, rfl, -, rfl⟩
  refine .plain_last fun arr harr => ?_
  refine .free_bind rfl ?_
  exact .pure ⟨rfl, by rw [hbuf, length_of_fill harr], rfl⟩

theorem processCertificateVerify_follows (cv : CertificateVerify) :
    Follows (processCertificateVerify cv) F (TLS13.processCertificateVerify cv) (Returned F) := by
  refine .malloc_bind fun buf hbuf => ?_
  refine .plain_bind fun signature _ => ?_
  exact .plain_last fun arr harr => .pure ⟨rfl, by rw [hbuf, length_of_fill harr], rfl⟩

variable (S : Sodium)

/-- Of the two buffers for the signature the one in the struct is left. -/
theorem createCertificateVerify_follows (sign : Signer) (keyFile : Bytes)
    (transcriptHash : Block 32) :
    Follows (createCertificateVerify S sign keyFile transcriptHash) F
      (TLS13.createCertificateVerify S sign keyFile transcriptHash) fun cv v G =>
        v.1 = cv ∧ Returned F cv.signature (cv.signature, v.2) G := by
  refine .plain_bind fun key _ => ?_
  refine .bind (Q := fun hash v G => v.1 = hash ∧ G = {v.2} + F) ?_ ?_
  · refine .malloc_bind fun buf _ => ?_
    refine .plain_bind fun hash _ => ?_
    refine .plain_bind fun content _ => ?_
    refine .malloc_bind fun hashBuf _ => ?_
    refine .free_bind (G := {hashBuf} + F) (by ac_rfl) ?_
    exact .pure ⟨rfl, rfl⟩
  · rintro _ ⟨hash, hashBuf⟩ _ - ⟨rfl, rfl⟩
    dsimp only
    cases sign key hash with
    | none => exact fun _ _ => rfl
    | some signature =>
      refine .free_bind rfl ?_
      refine .plain_bind fun r _ => ?_
      refine .plain_bind fun s _ => ?_
      refine .malloc_bind fun der hder => ?_
      refine .plain_bind fun buf hbuf => ?_
      exact .pure ⟨rfl, rfl, by rw [hder, length_of_fill hbuf], rfl⟩

/-! ### Opening -/

/-- The sizes of what `decrypt_record` leaves in use, by what it was given and returned. -/
def openingSizes (record : TLSPlaintext) (v : ℤ × TLSPlaintext) : Multiset ℕ :=
  if v.1 = 0 then {2} + {v.2.length.toNat} else {record.length.toNat + 84}

theorem decryptRecord_follows (heap : (n : ℕ) → Block n) (out record : TLSPlaintext)
    (key : Block 32) (nonce : Block 12) :
    Follows (decryptRecord S heap out record key nonce) F
      (TLS13.decryptRecord S heap out record key nonce) (Leaves F (openingSizes record)) := by
  refine .plain_bind fun ad _ => ?_
  refine .malloc_bind fun inner hinner => ?_
  have hsize : inner.size = record.length.toNat + 84 :=
    hinner.trans (show record.length.toNat + 100 - 16 = record.length.toNat + 84 by omega)
  refine .plain_bind fun fragment _ => ?_
  cases S.aeadDecrypt fragment ad nonce key with
  | none => exact .pure ⟨rfl, {inner}, by rw [Multiset.map_singleton, hsize]; rfl, rfl⟩
  | some buf =>
    dsimp only
    by_cases hlength : (buf.length : ℤ) ≠ record.length.toNat - aeadTagLength
    · rw [if_pos hlength, if_pos hlength]
      exact .pure ⟨rfl, {inner}, by rw [Multiset.map_singleton, hsize]; rfl, rfl⟩
    · rw [if_neg hlength, if_neg hlength]
      have hlt : buf.length < 2 ^ 16 := by
        have hrecord := record.length.toNat_lt
        omega
      refine .plain_bind fun offset _ => ?_
      refine .plain_bind fun type _ => ?_
      refine .malloc_bind fun version hversion => ?_
      refine .plain_bind fun v0 _ => ?_
      refine .plain_bind fun v1 _ => ?_
      refine .malloc_bind fun content hcontent => ?_
      refine .plain_bind fun bs _ => ?_
      refine .plain_bind fun out' _ => ?_
      refine .free_bind (G := {version} + {content} + F) (by ac_rfl) ?_
      refine .pure ⟨rfl, {version} + {content}, ?_, rfl⟩
      rw [Multiset.map_add, Multiset.map_singleton, Multiset.map_singleton, hversion, hcontent,
        openingSizes, if_pos rfl, toNat_ofNat_uint16 (by omega)]

/-! ### The state -/

/-- The blocks of the state, in the order in which they are given back. -/
def StatePointers.blocks (p : StatePointers) : List Allocation :=
  [p.handshakeSecret, p.masterSecret, p.serverHandshakeTrafficSecret,
    p.clientHandshakeTrafficSecret, p.serverApplicationTrafficSecret,
    p.clientApplicationTrafficSecret, p.serverWriteKey, p.clientWriteKey, p.serverWriteIv,
    p.clientWriteIv, p.certificateKey]

theorem initTLSServerState_follows :
    Follows initTLSServerState F (.ok () : Checked Unit) fun _ p G =>
      p.sharedSecret.size = 32 ∧ G = (p.blocks : Multiset Allocation) + ({p.sharedSecret} + F) := by
  refine .malloc_bind fun handshakeSecret _ => ?_
  refine .malloc_bind fun masterSecret _ => ?_
  refine .malloc_bind fun sharedSecret hshared => ?_
  refine .malloc_bind fun serverHandshakeTrafficSecret _ => ?_
  refine .malloc_bind fun clientHandshakeTrafficSecret _ => ?_
  refine .malloc_bind fun serverApplicationTrafficSecret _ => ?_
  refine .malloc_bind fun clientApplicationTrafficSecret _ => ?_
  refine .malloc_bind fun serverWriteKey _ => ?_
  refine .malloc_bind fun clientWriteKey _ => ?_
  refine .malloc_bind fun serverWriteIv _ => ?_
  refine .malloc_bind fun clientWriteIv _ => ?_
  refine .malloc_bind fun certificateKey _ => ?_
  refine .pure ⟨hshared, ?_⟩
  simp only [StatePointers.blocks, ← Multiset.cons_coe, Multiset.coe_nil, ← Multiset.singleton_add]
  rw [add_zero]
  ac_rfl

theorem freeTLSServerState_follows (p : StatePointers) :
    Follows (freeTLSServerState p) (p.blocks + F) (.ok () : Checked Unit) fun _ _ G => G = F := by
  simp only [StatePointers.blocks, ← Multiset.cons_coe, Multiset.coe_nil, ← Multiset.singleton_add,
    add_assoc, zero_add]
  refine .free_bind rfl ?_
  refine .free_bind rfl ?_
  refine .free_bind rfl ?_
  refine .free_bind rfl ?_
  refine .free_bind rfl ?_
  refine .free_bind rfl ?_
  refine .free_bind rfl ?_
  refine .free_bind rfl ?_
  refine .free_bind rfl ?_
  refine .free_bind rfl ?_
  exact .free_last rfl rfl

/-! ### The ledgers -/

/-- What the builders of messages leave in use. -/
structure BuildersLeave : Prop where
  extensions : ∀ ea, Builds (processExtensions ea) (TLS13.processExtensions ea)
  handshake : ∀ hs, Builds (processHandshake hs) (TLS13.processHandshake hs)
  record : ∀ r, Builds (processRecord r) (TLS13.processRecord r)
  sealedRecord : ∀ rand r key nonce,
    Builds (encryptRecord S rand r key nonce) (TLS13.encryptRecord S rand r key nonce)
  encryptedExtensions : ∀ ee,
    Builds (processEncryptedExtensions ee) (TLS13.processEncryptedExtensions ee)
  certificate : ∀ c, Builds (processCertificate c) (TLS13.processCertificate c)
  certificateVerify : ∀ cv,
    Builds (processCertificateVerify cv) (TLS13.processCertificateVerify cv)
  signature : ∀ sign keyFile transcriptHash,
    Builds
      ((fun v => (v.1.signature, v.2)) <$> createCertificateVerify S sign keyFile transcriptHash)
      (CertificateVerify.signature <$> TLS13.createCertificateVerify S sign keyFile transcriptHash)
  serverHello : ∀ sh, LeavesInUse (Prod.fst <$> processServerHello sh) (TLS13.processServerHello sh)
    fun bs => {bs.length} + {(extensionsLength sh.extensions).toOption.getD 0}

/-- Every builder, given any struct, leaves the buffer that it returns in use and no
other, but `process_server_hello`, which leaves the block of the extensions too. -/
theorem builders_leave : BuildersLeave S where
  extensions ea := builds_of_follows fun _ => (processExtensions_follows ea).mono fun _ h => h.2
  handshake hs := builds_of_follows fun _ => processHandshake_follows hs
  record r := builds_of_follows fun _ => processRecord_follows r
  sealedRecord rand r key nonce :=
    builds_of_follows fun _ => encryptRecord_follows S rand r key nonce
  encryptedExtensions ee := builds_of_follows fun _ => processEncryptedExtensions_follows ee
  certificate c := builds_of_follows fun _ => processCertificate_follows c
  certificateVerify cv := builds_of_follows fun _ => processCertificateVerify_follows cv
  signature sign keyFile transcriptHash := by
    refine builds_of_follows fun F => ?_
    refine .map (createCertificateVerify_follows S sign keyFile transcriptHash) ?_
    rintro cv ⟨_, buf⟩ _ - ⟨rfl, h⟩
    exact h
  serverHello sh := by
    refine leavesInUse_of_follows fun F => ?_
    refine .map_right (processServerHello_follows sh) ?_
    rintro bs ⟨_, buf⟩ _ - ⟨ex, hex, rfl, hsize, rfl⟩
    refine ⟨rfl, {buf} + {ex}, ?_, (add_assoc _ _ _).symm⟩
    rw [Multiset.map_add, Multiset.map_singleton, Multiset.map_singleton, hsize, hex]
    rfl

/-- Any record under any key and nonce: one that is refused leaves the buffer for its
plaintext in use, and one that opens leaves two blocks for the struct. -/
theorem decryptRecord_ledger (heap : (n : ℕ) → Block n) (out record : TLSPlaintext)
    (key : Block 32) (nonce : Block 12) :
    LeavesInUse (decryptRecord S heap out record key nonce)
      (TLS13.decryptRecord S heap out record key nonce) (openingSizes record) :=
  leavesInUse_of_follows fun _ => decryptRecord_follows S heap out record key nonce

/-- A process that gives its state back ends as the loop does, and leaves in use the
shared secret and what the loop leaves. -/
theorem serveAndFree_ledger (heap : Allocated) (is : List Input) :
    LeavesInUse (serveAndFree S heap is) (TLS13.serveAll S (World.init heap) is)
      fun v => {32} + leftoverAll v.1 := by
  refine leavesInUse_of_follows fun F => ?_
  refine .before initTLSServerState_follows ?_
  rintro p _ ⟨hshared, rfl⟩
  refine .bind_last (serveAll_follows S is (World.init heap)) ?_
  rintro _ ⟨calls, u⟩ _ - ⟨rfl, left, hleft, rfl⟩
  rw [add_left_comm]
  refine .before (freeTLSServerState_follows p) ?_
  rintro _ _ rfl
  refine .pure ⟨rfl, {p.sharedSecret} + left, ?_, ?_⟩
  · rw [Multiset.map_add, Multiset.map_singleton, hshared, hleft]
  · ac_rfl

end TLS13.Memory
