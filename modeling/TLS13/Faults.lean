import TLS13.Lib.Faults
import TLS13.Blocks
import TLS13.Bodies
import TLS13.Loop

/-! How a call of the state machine can end without returning. Everything that can
go wrong does so in the parsers and in the search for a key share, before the
first byte is written: a read past an allocation, a failing assertion, or the null
pointer of an empty extension array. Every loop ends, every buffer that is written
has the size of what goes into it, and once a key share was found the call
returns. -/

namespace TLS13

open Lib

/-- What a peer can stop the process with. -/
def peerFaults : Set Fault := {.overRead, .assertFailed, .nullDeref}

/-! ### The parsers -/

section Parsers

variable {data : Bytes} {dataLength iter : ℕ}

theorem onlyOverReads_getUint24 : (getUint24 data iter).OnlyOverReads := by
  refine onlyOverReads_readByte.bind fun _ _ => ?_
  refine onlyOverReads_readByte.bind fun _ _ => ?_
  exact onlyOverReads_readByte.bind fun _ _ => .ok _

theorem onlyOverReads_parseHandshake : (parseHandshake data dataLength).OnlyOverReads := by
  refine onlyOverReads_readByte.bind fun _ _ => ?_
  refine onlyOverReads_getUint24.bind fun _ _ => ?_
  exact onlyOverReads_readBytes.bind fun _ _ => .ok _

theorem onlyOverReads_parseHelloFields : (parseHelloFields data).OnlyOverReads := by
  refine onlyOverReads_readBytes.bind fun _ _ => ?_
  refine onlyOverReads_readBytes.bind fun _ _ => ?_
  refine onlyOverReads_readByte.bind fun _ _ => ?_
  refine onlyOverReads_readBytes.bind fun _ _ => ?_
  refine onlyOverReads_readUint16.bind fun _ _ => ?_
  refine onlyOverReads_readBytes.bind fun _ _ => ?_
  refine onlyOverReads_readByte.bind fun _ _ => ?_
  refine onlyOverReads_readBytes.bind fun _ _ => ?_
  exact onlyOverReads_readUint16.bind fun _ _ => .ok _

theorem onlyOverReads_parseClientHello : (parseClientHello data dataLength).OnlyOverReads := by
  refine onlyOverReads_parseHelloFields.bind fun _ _ => ?_
  exact onlyOverReads_parseExtensions.bind fun _ _ => .ok _

/-- The session id of a parsed ClientHello is as long as its length says, whatever
the body was. -/
theorem parseClientHello_sessionId {ch : ClientHello}
    (h : parseClientHello data dataLength = .ok ch) :
    ch.legacySessionId.length = ch.legacySessionIdLength.toNat := by
  simp only [parseClientHello, parseHelloFields, bind_assoc, Checked.bind_eq_ok, Checked.pure_eq,
    Checked.bind_ok, Except.ok.injEq] at h
  obtain ⟨_, _, _, _, idLength, _, id, hid, _, _, _, _, _, _, _, _, _, _, _, _, rfl⟩ := h
  exact (drop_eq_of_readBytes hid).1

end Parsers

/-! ### The search for a key share -/

theorem onlyOverReads_findExtension (type : UInt16) (es : List Extension) :
    (findExtension type es).OnlyOverReads := by
  induction es with
  | nil =>
    intro e h
    cases h
    rfl
  | cons e es ih =>
    rw [findExtension]
    split
    · exact .ok _
    · exact ih

theorem onlyOverReads_getExtension (ea : ExtensionArray) (type : UInt16) :
    (getExtension ea type).OnlyOverReads := by
  unfold getExtension
  split
  · exact .ok _
  · exact onlyOverReads_findExtension type ea.array

theorem onlyOverReads_readBlock {mem : Bytes} {off n : ℕ} :
    (readBlock mem off n).OnlyOverReads := by
  intro e h
  unfold readBlock at h
  split at h
  · cases h
  · cases h
    rfl

/-- The walk ends: every turn that goes on has read the four bytes in front of a
key, so the next one starts further back in the extension. -/
theorem faultsIn_walkKeyShares {data : Bytes} {length : UInt16} {fuel iter : ℕ} (hpos : 0 < fuel)
    (hfuel : data.length < fuel + iter) :
    (walkKeyShares data length fuel iter).FaultsIn {.overRead, .assertFailed} := by
  induction fuel generalizing iter with
  | zero => exact absurd hpos (lt_irrefl 0)
  | succ fuel ih =>
    refine (onlyOverReads_readUint16.faultsIn (by simp)).bind fun group _ => ?_
    refine (onlyOverReads_readUint16.faultsIn (by simp)).bind fun keLen hlen => ?_
    have hread := congrArg List.length (drop_eq_of_readUint16 hlen)
    rw [List.length_append, length_be, List.length_drop, List.length_drop] at hread
    dsimp only
    split
    · split
      · exact .error (by simp)
      · exact ih (by omega) (by omega)
    · refine Checked.FaultsIn.bind ?_ fun _ _ => onlyOverReads_readBlock.faultsIn (by simp)
      unfold assert
      split
      · exact .ok _
      · exact .error (by simp)

theorem faultsIn_getX25519KeyShare (ea : ExtensionArray) :
    (getX25519KeyShare ea).FaultsIn peerFaults := by
  refine ((onlyOverReads_getExtension ea _).faultsIn (by simp [peerFaults])).bind fun found _ => ?_
  cases found with
  | none => exact .error (by simp [peerFaults])
  | some ex =>
    refine (onlyOverReads_readUint16.faultsIn (by simp [peerFaults])).bind fun length _ => ?_
    refine (faultsIn_walkKeyShares (Nat.succ_pos _) (by omega)).mono ?_
    simp [peerFaults, Set.insert_subset_iff]

/-! ### What is left when a key share was found -/

variable (S : Sodium)

/-- The server answers whatever was parsed, once it has a secret. -/
theorem sendServerHello_returns {ent : Entropy} {w : World} {ch : ClientHello}
    (publicKey : Block 32)
    {data : Bytes} {dataLength : ℕ} (hparse : parseClientHello data dataLength = .ok ch) :
    ∃ w', sendServerHello ent w ch publicKey = .ok (0, w') :=
  ⟨_, sendServerHello_eq publicKey (parseClientHello_sessionId hparse).ge⟩

/-- A parsed ClientHello with a key share makes the handshake return. -/
theorem clientHelloServerHelloHandshake_returns_iff {ent : Entropy} {w : World} {ch : ClientHello}
    {data : Bytes} {dataLength : ℕ} (hparse : parseClientHello data dataLength = .ok ch)
    (hsuite : w.state.cipherSuite = tlsChacha20Poly1305Sha256Num) :
    (clientHelloServerHelloHandshake S ent w ch).Returns ↔
      S.scalarmultBase ent.serverPrivateKey = none ∨ (getX25519KeyShare ch.extensions).Returns := by
  unfold clientHelloServerHelloHandshake
  rw [if_pos hsuite]
  cases hbase : S.scalarmultBase ent.serverPrivateKey with
  | none => exact iff_of_true (Checked.returns_ok _) (.inl rfl)
  | some publicKey =>
    simp only [Checked.returns_bind_iff, reduceCtorEq, false_or]
    constructor
    · rintro ⟨key, hshare, -⟩
      exact ⟨key, hshare⟩
    · rintro ⟨key, hshare⟩
      refine ⟨key, hshare, ?_⟩
      cases S.scalarmult ent.serverPrivateKey key with
      | none => exact Checked.returns_ok _
      | some sharedSecret =>
        obtain ⟨w', hsend⟩ := sendServerHello_returns publicKey hparse
        exact ⟨_, hsend⟩

theorem faultsIn_clientHelloServerHelloHandshake {ent : Entropy} {w : World} {ch : ClientHello}
    {data : Bytes} {dataLength : ℕ} (hparse : parseClientHello data dataLength = .ok ch) :
    (clientHelloServerHelloHandshake S ent w ch).FaultsIn peerFaults := by
  unfold clientHelloServerHelloHandshake
  split
  · cases S.scalarmultBase ent.serverPrivateKey with
    | none => exact .ok _
    | some publicKey =>
      refine (faultsIn_getX25519KeyShare ch.extensions).bind fun key _ => ?_
      cases S.scalarmult ent.serverPrivateKey key with
      | none => exact .ok _
      | some sharedSecret =>
        obtain ⟨w', hsend⟩ := sendServerHello_returns publicKey hparse
        exact .of_returns ⟨_, hsend⟩
  · exact .ok _

/-- Once the ServerHello is written nothing stops the rest of the call. -/
theorem finishHandshake_returns (ent : Entropy) (w : World) :
    Checked.Returns (do
      let w ← deriveKeys S (w.setState { w.state with state := .encrypted })
      let (rc, w) ← sendNullEncryptedExtensions S ent w
      if rc ≠ 0 then return ((-4 : ℤ), w)
      else return (0, w)) := by
  have hsend : sendNullEncryptedExtensions S ent (w.establish S) =
      .ok (0, (w.establish S).extend S ent.rand) := sendNullEncryptedExtensions_eq S rfl
  rw [deriveKeys_eq, Checked.bind_ok, hsend]
  exact Checked.returns_ok _

/-! ### A call -/

/-- The fragment holds a message of another type, or a ClientHello that is read to
its end and has a key share, if the server has a key pair to use it with. -/
def ReadableHandshake (ent : Entropy) (r : TLSPlaintext) : Prop :=
  ∃ hs, parseHandshake r.fragment r.length.toNat = .ok hs ∧
    (hs.msgType = clientHelloType → ∃ ch, parseClientHello hs.body hs.length.toNat = .ok ch ∧
      (S.scalarmultBase ent.serverPrivateKey = none ∨ (getX25519KeyShare ch.extensions).Returns))

/-- An alert has its two bytes, and a handshake message is readable. -/
def Readable (ent : Entropy) (r : TLSPlaintext) : Prop :=
  (r.type = alertType → 2 ≤ r.fragment.length) ∧
    (r.type = handshakeType → ReadableHandshake S ent r)

variable {ent : Entropy} {w : World} {r : Record}

theorem handleHandshake_returns_iff
    (hsuite : w.state.cipherSuite = tlsChacha20Poly1305Sha256Num) :
    (handleHandshake S ent w r.toTLSPlaintext).Returns ↔
      ReadableHandshake S ent r.toTLSPlaintext := by
  unfold handleHandshake ReadableHandshake
  rw [Checked.returns_bind_iff]
  refine exists_congr fun hs => and_congr_right fun _ => ?_
  by_cases hmsg : hs.msgType = clientHelloType
  · rw [if_neg (not_not.mpr hmsg), Checked.returns_bind_iff]
    simp only [hmsg, forall_const, r.readBytes_fragment, Checked.bind_ok]
    refine exists_congr fun ch => and_congr_right fun hparse => ?_
    have hshake : (clientHelloServerHelloHandshake S ent (w.absorb r.fragment) ch).Returns ↔ _ :=
      clientHelloServerHelloHandshake_returns_iff S hparse hsuite
    rw [← hshake, Checked.returns_bind_iff]
    constructor
    · rintro ⟨result, hresult, -⟩
      exact ⟨result, hresult⟩
    · rintro ⟨⟨rc, w'⟩, hresult⟩
      refine ⟨(rc, w'), hresult, ?_⟩
      dsimp only
      split
      · exact Checked.returns_ok _
      · exact finishHandshake_returns S ent w'
  · rw [if_pos hmsg]
    exact iff_of_true (Checked.returns_ok _) fun h => absurd h hmsg

theorem faultsIn_handleHandshake :
    (handleHandshake S ent w r.toTLSPlaintext).FaultsIn peerFaults := by
  refine (onlyOverReads_parseHandshake.faultsIn (by simp [peerFaults])).bind fun hs _ => ?_
  dsimp only
  split
  · exact .ok _
  · refine (onlyOverReads_parseClientHello.faultsIn (by simp [peerFaults])).bind fun ch hparse => ?_
    rw [r.readBytes_fragment, Checked.bind_ok]
    refine (faultsIn_clientHelloServerHelloHandshake S hparse).bind ?_
    rintro ⟨rc, w'⟩ -
    dsimp only
    split
    · exact .ok _
    · exact .of_returns (finishHandshake_returns S ent w')

theorem onlyOverReads_readAlert (fragment : Bytes) (w : World) :
    Checked.OnlyOverReads (do
      let _level ← readByte fragment 0
      let _description ← readByte fragment 1
      return ((0 : ℤ), w)) :=
  onlyOverReads_readByte.bind fun _ _ => onlyOverReads_readByte.bind fun _ _ => .ok _

theorem readAlert_returns_iff (fragment : Bytes) (w : World) :
    Checked.Returns (do
      let _level ← readByte fragment 0
      let _description ← readByte fragment 1
      return ((0 : ℤ), w)) ↔ 2 ≤ fragment.length := by
  match fragment with
  | [] => exact iff_of_false (by rintro ⟨_, h⟩; cases h) (by simp)
  | [_] => exact iff_of_false (by rintro ⟨_, h⟩; cases h) (by simp)
  | _ :: _ :: _ => exact iff_of_true ⟨_, rfl⟩ (by simp)

/-- No call ends in a fault that is not the peer's. -/
theorem faultsIn_mainStateMech :
    (mainStateMech S ent w r.toTLSPlaintext).FaultsIn peerFaults := by
  unfold mainStateMech
  rw [r.readBytes_version, Checked.bind_ok]
  dsimp only
  split
  · exact faultsIn_handleHandshake S
  · split
    · exact (onlyOverReads_readAlert _ _).faultsIn (by simp [peerFaults])
    · split
      · exact .ok _
      · split
        · exact .ok _
        · exact .ok _

/-- A call returns exactly when the parsers get through what they are given. -/
theorem mainStateMech_returns_iff_readable
    (hsuite : w.state.cipherSuite = tlsChacha20Poly1305Sha256Num) :
    (mainStateMech S ent w r.toTLSPlaintext).Returns ↔ Readable S ent r.toTLSPlaintext := by
  unfold mainStateMech Readable
  rw [r.readBytes_version, Checked.bind_ok]
  dsimp only
  by_cases hhandshake : r.type = handshakeType
  · have halert : r.type ≠ alertType := by
      rw [hhandshake]
      decide
    have hlogged : (w.log (.received r.toTLSPlaintext)).state.cipherSuite =
        tlsChacha20Poly1305Sha256Num := hsuite
    rw [if_pos hhandshake, handleHandshake_returns_iff S hlogged]
    constructor
    · intro h
      exact ⟨fun ha => absurd ha halert, fun _ => h⟩
    · intro h
      exact h.2 hhandshake
  · rw [if_neg hhandshake]
    simp only [hhandshake, false_implies, and_true]
    by_cases halert : r.type = alertType
    · rw [if_pos halert]
      simp only [halert, forall_const]
      exact readAlert_returns_iff _ _
    · rw [if_neg halert]
      refine iff_of_true ?_ fun h => absurd h halert
      split
      · exact Checked.returns_ok _
      · split
        · exact Checked.returns_ok _
        · exact Checked.returns_ok _

/-! ### The loop -/

variable {S}

theorem Reachable.step {t : World} {c : Call} (hw : Reachable S w) (h : Call.Step S w c t) :
    Reachable S t := by
  obtain ⟨heap, calls, hrun⟩ := hw
  exact ⟨heap, calls ++ [c], hrun.snoc h⟩

/-- Every record that the loop comes to is readable: the calls on the records in
front of it all returned 0. -/
def AllReadable (S : Sodium) (w : World) (inputs : List Input) : Prop :=
  ∀ pre i post t, inputs = pre ++ i :: post → Run (Call.Step S) w (pre.map (Input.call · 0)) t →
    Readable S i.entropy i.record.toTLSPlaintext

theorem allReadable_cons_iff {i : Input} {is : List Input} :
    AllReadable S w (i :: is) ↔ Readable S i.entropy i.record.toTLSPlaintext ∧
      ∀ t, (i.call 0).Step S w t → AllReadable S t is := by
  constructor
  · intro h
    refine ⟨h [] i is w rfl .nil, ?_⟩
    rintro t hstep pre j post u rfl hrun
    exact h (i :: pre) j post u rfl (.cons hstep hrun)
  · rintro ⟨hfirst, hrest⟩ pre j post u hinputs hrun
    cases pre with
    | nil =>
      obtain ⟨rfl, -⟩ := List.cons.inj hinputs
      exact hfirst
    | cons k pre =>
      obtain ⟨rfl, rfl⟩ := List.cons.inj hinputs
      obtain ⟨t, hstep, hrun⟩ := Run.cons_iff.mp hrun
      exact hrest t hstep pre j post u rfl hrun

theorem serveAll_returns_iff_of_reachable {inputs : List Input} (hw : Reachable S w) :
    (serveAll S w inputs).FaultsIn peerFaults ∧
      ((serveAll S w inputs).Returns ↔ AllReadable S w inputs) := by
  induction inputs generalizing w with
  | nil =>
    refine ⟨.ok _, iff_of_true (Checked.returns_ok _) ?_⟩
    intro pre i post t h
    simp at h
  | cons i is ih =>
    have hfaults : (mainStateMech S i.entropy w i.record.toTLSPlaintext).FaultsIn peerFaults :=
      faultsIn_mainStateMech S
    have hreturns :
        (mainStateMech S i.entropy w i.record.toTLSPlaintext).Returns ↔
          Readable S i.entropy i.record.toTLSPlaintext :=
      mainStateMech_returns_iff_readable S (hw.cipherSuite S)
    rw [allReadable_cons_iff, ← hreturns]
    cases hcall : mainStateMech S i.entropy w i.record.toTLSPlaintext with
    | error e =>
      simp only [serveAll, hcall, Checked.bind_error]
      refine ⟨.error (hfaults e hcall), iff_of_false ?_ fun h => ?_⟩
      · rintro ⟨_, h⟩
        cases h
      · obtain ⟨_, h⟩ := h.1
        cases h
    | ok result =>
      obtain ⟨rc, t⟩ := result
      have hstep : (i.call rc).Step S w t := hcall
      by_cases hrc : rc = 0
      · subst hrc
        obtain ⟨hrestFaults, hrestReturns⟩ := ih (hw.step hstep)
        rw [serveAll_cons_of_zero is hstep]
        refine ⟨hrestFaults.bind fun _ _ => .ok _, ?_⟩
        rw [Checked.returns_bind_iff]
        constructor
        · rintro ⟨rest, hrest, -⟩
          refine ⟨Checked.returns_ok _, fun t' hstep' => ?_⟩
          obtain rfl : t = t' := (Prod.mk.inj (Except.ok.inj (hcall.symm.trans hstep'))).2
          exact hrestReturns.mp ⟨rest, hrest⟩
        · rintro ⟨-, hrest⟩
          obtain ⟨rest, hserve⟩ := hrestReturns.mpr (hrest t hstep)
          exact ⟨rest, hserve, Checked.returns_ok _⟩
      · rw [serveAll_cons_of_ne_zero is hstep hrc]
        refine ⟨.ok _, iff_of_true (Checked.returns_ok _) ⟨Checked.returns_ok _, ?_⟩⟩
        intro t' hstep'
        have hcodes := (Prod.mk.inj (Except.ok.inj (hcall.symm.trans hstep'))).1
        exact absurd hcodes hrc

/-- The loop of `main` on any records: it is stopped by nothing but a peer's fault,
and gets through exactly when every record that it comes to is readable. -/
theorem serveAll_returns_iff (heap : Allocated) (inputs : List Input) :
    (serveAll S (World.init heap) inputs).FaultsIn peerFaults ∧
      ((serveAll S (World.init heap) inputs).Returns ↔
        AllReadable S (World.init heap) inputs) :=
  serveAll_returns_iff_of_reachable ⟨heap, [], .nil⟩

end TLS13
