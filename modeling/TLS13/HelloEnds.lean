import TLS13.Faults
import TLS13.KeyShares

/-! How a call on a ClientHello of the grammar ends, for messages with any number
of extensions. The count is kept in eight bits while the array keeps every entry,
so it matters only where it wraps to zero; then the search for a key share
returns `NULL`. Elsewhere the walk over the list of key shares decides, and with
a key the exchange itself. -/

namespace TLS13

open Lib

/-! ### The search among any number of extensions -/

/-- The length of the array is zero exactly for the multiples of 256. -/
theorem length_ofRfc_eq_zero_iff (es : List Rfc.Extension) :
    (ExtensionArray.ofRfc es).length = 0 ↔ 256 ∣ es.length := by
  rw [← UInt8.toNat_inj, ExtensionArray.ofRfc, UInt8.toNat_ofNat']
  exact (Nat.dvd_iff_mod_eq_zero).symm

variable {es : List Rfc.Extension}

theorem getX25519KeyShare_of_dvd (h : 256 ∣ es.length) :
    getX25519KeyShare (ExtensionArray.ofRfc es) = .error .nullDeref := by
  rw [getX25519KeyShare, getExtension, if_pos ((length_ofRfc_eq_zero_iff es).mpr h)]
  rfl

theorem getExtension_ofRfc_of_not_dvd (type : UInt16) (h : ¬ 256 ∣ es.length) :
    getExtension (ExtensionArray.ofRfc es) type =
      match es.find? (·.type = type) with
      | some e => .ok (some (Extension.ofRfc e))
      | none => .error .overRead := by
  rw [getExtension, if_neg ((length_ofRfc_eq_zero_iff es).not.mpr h)]
  exact findExtension_ofRfc type es

theorem getX25519KeyShare_of_absent (h : ¬ 256 ∣ es.length)
    (hnone : es.find? (·.type = 51) = none) :
    getX25519KeyShare (ExtensionArray.ofRfc es) = .error .overRead := by
  have hget := getExtension_ofRfc_of_not_dvd keyShareExtensionType h
  rw [show es.find? (·.type = keyShareExtensionType) = none from hnone] at hget
  rw [getX25519KeyShare, hget]
  rfl

/-- The list of a message is walked over, unless the count wraps to zero. -/
theorem getX25519KeyShare_ofRfc_eq_ending (h : ¬ 256 ∣ es.length) {e : Rfc.Extension}
    {l : Rfc.ClientShares} (hfind : es.find? (·.type = 51) = some e) (hdata : e.data = l.encode) :
    getX25519KeyShare (ExtensionArray.ofRfc es) = walkEnding l.entries := by
  have hget := getExtension_ofRfc_of_not_dvd keyShareExtensionType h
  rw [show es.find? (·.type = keyShareExtensionType) = some e from hfind] at hget
  exact getX25519KeyShare_eq_ending hget hdata

/-! ### The call -/

/-- The code of the call on the message `ch`, or the fault that it ends in. -/
inductive HelloEnds (S : Sodium) (ent : Entropy) (ch : Rfc.ClientHello) : Checked ℤ → Prop
  | noExtension : ch.extensions = [] → HelloEnds S ent ch (.error .overRead)
  | noKeyPair : ch.extensions ≠ [] → S.scalarmultBase ent.serverPrivateKey = none →
      HelloEnds S ent ch (.ok (-3))
  | countWraps {publicKey : Block 32} : ch.extensions ≠ [] → 256 ∣ ch.extensions.length →
      S.scalarmultBase ent.serverPrivateKey = some publicKey →
      HelloEnds S ent ch (.error .nullDeref)
  | noKeyShare {publicKey : Block 32} : ¬ 256 ∣ ch.extensions.length →
      S.scalarmultBase ent.serverPrivateKey = some publicKey → ch.keyShare = none →
      HelloEnds S ent ch (.error .overRead)
  | walkFails {publicKey : Block 32} {e : Rfc.Extension} {l : Rfc.ClientShares} {fault : Fault} :
      ¬ 256 ∣ ch.extensions.length → S.scalarmultBase ent.serverPrivateKey = some publicKey →
      ch.keyShare = some e → e.data = l.encode → walkEnding l.entries = .error fault →
      HelloEnds S ent ch (.error fault)
  | noSecret {publicKey key : Block 32} {e : Rfc.Extension} {l : Rfc.ClientShares} :
      ¬ 256 ∣ ch.extensions.length → S.scalarmultBase ent.serverPrivateKey = some publicKey →
      ch.keyShare = some e → e.data = l.encode → walkEnding l.entries = .ok key →
      S.scalarmult ent.serverPrivateKey key = none → HelloEnds S ent ch (.ok (-3))
  | answered {publicKey key sharedSecret : Block 32} {e : Rfc.Extension} {l : Rfc.ClientShares} :
      ¬ 256 ∣ ch.extensions.length → S.scalarmultBase ent.serverPrivateKey = some publicKey →
      ch.keyShare = some e → e.data = l.encode → walkEnding l.entries = .ok key →
      S.scalarmult ent.serverPrivateKey key = some sharedSecret → HelloEnds S ent ch (.ok 0)

variable {S : Sodium} {ent : Entropy} {w : World} {ch : Rfc.ClientHello} {r : Record}

/-- A message whose search gives a key is answered when the key exchange succeeds. -/
def Hello.exchangeOfShare (h : Hello ch r) {publicKey key sharedSecret : Block 32}
    (hne : ch.extensions ≠ []) (hsuite : w.state.cipherSuite = tlsChacha20Poly1305Sha256Num)
    (hbase : S.scalarmultBase ent.serverPrivateKey = some publicKey)
    (hshare : getX25519KeyShare (ExtensionArray.ofRfc ch.extensions) = .ok key)
    (hagree : S.scalarmult ent.serverPrivateKey key = some sharedSecret) :
    Exchange S ent w r.toTLSPlaintext where
  handshake := ⟨clientHelloType, UInt32.ofNat ch.encode.length, ch.encode⟩
  clientHello := ClientHello.ofRfc ch
  serverPublicKey := publicKey
  clientPublicKey := key
  sharedSecret := sharedSecret
  parsed := h.parseHandshake
  isClientHello := Eq.refl clientHelloType
  parsedHello := parseClientHello_encode _ hne
  suite := hsuite
  base := hbase
  share := hshare
  agreed := hagree
  idSize := Nat.le_of_eq (toNat_ofNat_uint8 ch.sessionId_lt)

theorem extensions_ne_nil_of_not_dvd (h : ¬ 256 ∣ ch.extensions.length) : ch.extensions ≠ [] := by
  intro hnil
  rw [hnil] at h
  exact h (Nat.dvd_zero 256)

/-- Each of the endings is the one that happens. -/
theorem HelloEnds.sound {x : Checked ℤ} (hends : HelloEnds S ent ch x) (h : Hello ch r)
    (hw : Reachable S w) : (mainStateMech S ent w r.toTLSPlaintext).map Prod.fst = x := by
  cases hends with
  | noExtension hnil =>
    rw [mainStateMech_handshake S h.isHandshake]
    simp only [handleHandshake, h.parseHandshake, parseClientHello_nil _ hnil, Checked.bind_ok,
      Checked.bind_error, ne_eq, not_true_eq_false, if_false]
    rfl
  | noKeyPair hne hbase =>
    have hshake : clientHelloServerHelloHandshake S ent
        ((w.log (.received r.toTLSPlaintext)).absorb r.fragment) (ClientHello.ofRfc ch) =
          .ok (-3, (w.log (.received r.toTLSPlaintext)).absorb r.fragment) := by
      simp only [clientHelloServerHelloHandshake, if_pos (hw.cipherSuite_received _), hbase]
      rfl
    rw [h.mainStateMech_of_code hne (by decide) hshake]
    rfl
  | countWraps hne hdvd hbase =>
    rw [h.mainStateMech_of_fault hne hw hbase (getX25519KeyShare_of_dvd hdvd)]
    rfl
  | noKeyShare hdvd hbase hnone =>
    rw [h.mainStateMech_of_fault (extensions_ne_nil_of_not_dvd hdvd) hw hbase
      (getX25519KeyShare_of_absent hdvd hnone)]
    rfl
  | walkFails hdvd hbase hfind hdata hwalk =>
    rw [h.mainStateMech_of_fault (extensions_ne_nil_of_not_dvd hdvd) hw hbase
      ((getX25519KeyShare_ofRfc_eq_ending hdvd hfind hdata).trans hwalk)]
    rfl
  | noSecret hdvd hbase hfind hdata hwalk hagree =>
    have hshare : getX25519KeyShare (ClientHello.ofRfc ch).extensions = .ok _ :=
      (getX25519KeyShare_ofRfc_eq_ending hdvd hfind hdata).trans hwalk
    have hshake : ∃ w', clientHelloServerHelloHandshake S ent
        ((w.log (.received r.toTLSPlaintext)).absorb r.fragment) (ClientHello.ofRfc ch) =
          .ok (-4, w') := by
      simp only [clientHelloServerHelloHandshake, if_pos (hw.cipherSuite_received _), hbase, hshare,
        hagree, Checked.bind_ok]
      exact ⟨_, rfl⟩
    obtain ⟨w', hshake⟩ := hshake
    rw [h.mainStateMech_of_code (extensions_ne_nil_of_not_dvd hdvd) (by decide) hshake]
    rfl
  | answered hdvd hbase hfind hdata hwalk hagree =>
    have hshare := (getX25519KeyShare_ofRfc_eq_ending hdvd hfind hdata).trans hwalk
    rw [mainStateMech_of_exchange S h.isHandshake
      (h.exchangeOfShare (extensions_ne_nil_of_not_dvd hdvd) (hw.cipherSuite S) hbase hshare
        hagree)]
    rfl

/-- One of them happens when the lists of key shares are well-formed. -/
theorem exists_helloEnds (S : Sodium) (ent : Entropy) (hwf : ch.SharesWellFormed) :
    ∃ x, HelloEnds S ent ch x := by
  by_cases hnil : ch.extensions = []
  · exact ⟨_, .noExtension hnil⟩
  cases hbase : S.scalarmultBase ent.serverPrivateKey with
  | none => exact ⟨_, .noKeyPair hnil hbase⟩
  | some publicKey =>
    by_cases hdvd : 256 ∣ ch.extensions.length
    · exact ⟨_, .countWraps hnil hdvd hbase⟩
    cases hfind : ch.keyShare with
    | none => exact ⟨_, .noKeyShare hdvd hbase hfind⟩
    | some e =>
      have htype : e.type = 51 := by simpa using List.find?_some hfind
      obtain ⟨l, hdata⟩ := hwf e (List.mem_of_find?_eq_some hfind) htype
      cases hwalk : walkEnding l.entries with
      | error fault => exact ⟨_, .walkFails hdvd hbase hfind hdata hwalk⟩
      | ok key =>
        cases hagree : S.scalarmult ent.serverPrivateKey key with
        | none => exact ⟨_, .noSecret hdvd hbase hfind hdata hwalk hagree⟩
        | some sharedSecret => exact ⟨_, .answered hdvd hbase hfind hdata hwalk hagree⟩

/-- A well-formed ClientHello with any number of extensions ends in every reachable
state as the message alone decides: with a code, or with one of the faults. -/
theorem mainStateMech_ends_iff (h : Hello ch r) (hw : Reachable S w) (hwf : ch.SharesWellFormed)
    (x : Checked ℤ) :
    (mainStateMech S ent w r.toTLSPlaintext).map Prod.fst = x ↔ HelloEnds S ent ch x := by
  constructor
  · intro hx
    obtain ⟨y, hy⟩ := exists_helloEnds S ent hwf
    rw [← hx, hy.sound h hw]
    exact hy
  · intro hends
    exact hends.sound h hw

/-- The sample ClientHello is answered in its first call. -/
theorem mainStateMech_ends_sample :
    HelloEnds Sodium.reference sampleEntropy sampleHello (.ok 0) := by
  obtain ⟨x, hcall⟩ := mainStateMech_sample ⟨sampleHeap, [], .nil⟩ hello_sampleRecord
  refine (mainStateMech_ends_iff hello_sampleRecord ⟨sampleHeap, [], .nil⟩
    (sharesWellFormed_minimalHello _ _) _).mp ?_
  rw [hcall]
  rfl

end TLS13
