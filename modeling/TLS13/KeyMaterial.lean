import TLS13.Output

/-! The key material over runs and failures. The keys are installed in one block
of straight code after the last test that can fail, so a call with a nonzero code
has touched the shared secret and the transcript hash at most; and what an
encrypted state holds was derived in one such block. -/

namespace TLS13

open Lib

variable (S : Sodium)

/-- All that the records of the connection are protected with is the same. -/
structure SameKeyMaterial (w w' : World) : Prop where
  state : w'.state.state = w.state.state
  handshakeSecret : w'.state.handshakeSecret = w.state.handshakeSecret
  serverHandshakeTrafficSecret :
    w'.state.serverHandshakeTrafficSecret = w.state.serverHandshakeTrafficSecret
  clientHandshakeTrafficSecret :
    w'.state.clientHandshakeTrafficSecret = w.state.clientHandshakeTrafficSecret
  serverWriteKey : w'.state.serverWriteKey = w.state.serverWriteKey
  clientWriteKey : w'.state.clientWriteKey = w.state.clientWriteKey
  serverWriteIv : w'.state.serverWriteIv = w.state.serverWriteIv
  clientWriteIv : w'.state.clientWriteIv = w.state.clientWriteIv
  serverNonceCounter : w'.state.serverNonceCounter = w.state.serverNonceCounter
  clientNonceCounter : w'.state.clientNonceCounter = w.state.clientNonceCounter

/-- The traffic secrets are expansions of the stored handshake secret under the
hash of one transcript, which the connection's hash has absorbed, and the keys and IVs
expansions of the traffic secrets. -/
def KeysDerived (s : TLSServerState) : Prop :=
  ∃ transcript : Bytes,
    transcript <+: s.hashState.absorbed ∧
    s.serverHandshakeTrafficSecret = Rfc.hkdfExpandLabel S s.handshakeSecret
      (ascii ['s', ' ', 'h', 's', ' ', 't', 'r', 'a', 'f', 'f', 'i', 'c'])
      (S.hashSha256 transcript).val 32 ∧
    s.clientHandshakeTrafficSecret = Rfc.hkdfExpandLabel S s.handshakeSecret
      (ascii ['c', ' ', 'h', 's', ' ', 't', 'r', 'a', 'f', 'f', 'i', 'c'])
      (S.hashSha256 transcript).val 32 ∧
    s.serverWriteKey = Rfc.hkdfExpandLabel S s.serverHandshakeTrafficSecret
      (ascii ['k', 'e', 'y']) [] 32 ∧
    s.serverWriteIv = Rfc.hkdfExpandLabel S s.serverHandshakeTrafficSecret (ascii ['i', 'v']) [] 12 ∧
    s.clientWriteKey = Rfc.hkdfExpandLabel S s.clientHandshakeTrafficSecret
      (ascii ['k', 'e', 'y']) [] 32 ∧
    s.clientWriteIv = Rfc.hkdfExpandLabel S s.clientHandshakeTrafficSecret (ascii ['i', 'v']) [] 12

/-! ### A call that fails -/

variable {S}

/-- A nonzero code: the shared secret and the hash may be new, nothing else is. -/
theorem Outcome.sameKeyMaterial {ent : Entropy} {w w' : World} {r : TLSPlaintext} {rc : ℤ}
    (h : Outcome S ent w r rc w') (hrc : rc ≠ 0) : SameKeyMaterial w w' := by
  cases h with
  | answered _ _ => exact absurd rfl hrc
  | rejected _ _ _ _ => exact ⟨rfl, rfl, rfl, rfl, rfl, rfl, rfl, rfl, rfl, rfl⟩
  | otherMessage _ _ _ => exact ⟨rfl, rfl, rfl, rfl, rfl, rfl, rfl, rfl, rfl, rfl⟩
  | early _ _ => exact ⟨rfl, rfl, rfl, rfl, rfl, rfl, rfl, rfl, rfl, rfl⟩
  | ignored _ _ => exact absurd rfl hrc
  | unknown _ _ _ _ => exact ⟨rfl, rfl, rfl, rfl, rfl, rfl, rfl, rfl, rfl, rfl⟩

/-- It writes nothing, or the alert for early application data. -/
theorem Outcome.answers_of_failure {ent : Entropy} {w w' : World} {r : TLSPlaintext} {rc : ℤ}
    (h : Outcome S ent w r rc w') (hrc : rc ≠ 0) :
    TLS13.answers w w' = [] ∨
      (r.type = appliactionType ∧ w.state.state = .unencrypted ∧
        TLS13.answers w w' = [unexpectedMessage]) := by
  rcases h.answers with ⟨hzero, -⟩ | ⟨-, halert⟩ | ⟨-, hnone⟩
  · exact absurd hzero hrc
  · exact .inr halert
  · exact .inl hnone

/-! ### The keys of an encrypted state -/

theorem keysDerived_establish (w : World) : KeysDerived S (w.establish S).state :=
  ⟨w.state.hashState.absorbed, List.prefix_rfl, rfl, rfl, rfl, rfl, rfl, rfl⟩

theorem KeysDerived.of_same {w w' : World} (h : KeysDerived S w.state) (hs : SameKeyMaterial w w')
    (habsorbed : w.state.hashState.absorbed <+: w'.state.hashState.absorbed) :
    KeysDerived S w'.state := by
  obtain ⟨transcript, hprefix, h⟩ := h
  refine ⟨transcript, hprefix.trans habsorbed, ?_⟩
  rw [hs.handshakeSecret, hs.serverHandshakeTrafficSecret, hs.clientHandshakeTrafficSecret,
    hs.serverWriteKey, hs.clientWriteKey, hs.serverWriteIv, hs.clientWriteIv]
  exact h

theorem keysDerived_step {ent : Entropy} {w w' : World} {r : TLSPlaintext} {rc : ℤ}
    (hw : w.state.state = .encrypted → KeysDerived S w.state) (h : Outcome S ent w r rc w') :
    w'.state.state = .encrypted → KeysDerived S w'.state := by
  intro he
  by_cases hrc : rc = 0
  · subst hrc
    rcases h.of_zero with ⟨x, -, rfl⟩ | ⟨-, rfl⟩
    · exact keysDerived_establish _
    · exact hw he
  · have hs := h.sameKeyMaterial hrc
    exact (hw (hs.state ▸ he)).of_same hs h.absorbed_prefix

/-- A failing call leaves the key material as it was and writes no ServerHello and
no protected record; the keys of an encrypted state come from its handshake
secret and one transcript of the connection. -/
theorem key_material {w : World} (h : Reachable S w) :
    (∀ c w', Call.Step S w c w' → c.code ≠ 0 →
      SameKeyMaterial w w' ∧
        (answers w w' = [] ∨
          (c.record.type = appliactionType ∧ w.state.state = .unencrypted ∧
            answers w w' = [unexpectedMessage]))) ∧
      (w.state.state = .encrypted → KeysDerived S w.state) := by
  constructor
  · intro c w' hstep hcode
    have hout := mainStateMech_outcome S hstep
    exact ⟨hout.sameKeyMaterial hcode, hout.answers_of_failure hcode⟩
  · exact h.invariant S (fun w => w.state.state = .encrypted → KeysDerived S w.state)
      (fun _ he => by cases he) fun hw hout => keysDerived_step hw hout

/-- The state after the sample ClientHello. -/
theorem key_material_sample :
    ∃ w, Reachable Sodium.reference w ∧ w.state.state = .encrypted ∧
      KeysDerived Sodium.reference w.state := by
  obtain ⟨x, hrun⟩ := run_sample
  have hw : Reachable Sodium.reference x.world := ⟨sampleHeap, _, hrun⟩
  exact ⟨_, hw, rfl, (key_material hw).2 rfl⟩

end TLS13
