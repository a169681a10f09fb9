import TLS13.Hello

/-! What the encrypted state lets through. The dispatch looks at the record type
first and at the connection state for application data only, so a record that
holds a ClientHello is handled as the first one was; every other record leaves
the state alone. -/

namespace TLS13

open Lib

variable (S : Sodium)

/-- A handshake record whose first byte is the type of a ClientHello. -/
def HoldsClientHello (r : TLSPlaintext) : Prop :=
  r.type = handshakeType ∧ r.fragment.head? = some clientHelloType

instance (r : TLSPlaintext) : Decidable (HoldsClientHello r) := inferInstanceAs (Decidable (_ ∧ _))

/-- A plaintext record that holds a ServerHello. -/
def IsServerHello (bs : Bytes) : Prop :=
  bs.head? = some handshakeType ∧ (bs.drop 5).head? = some serverHelloType

/-- Between two worlds the connection stayed as the handshake left it: nothing
derived from it changed, no ServerHello was written, and every handshake record
was refused. -/
structure OneHandshake (w : World) (calls : List Call) (w' : World) : Prop where
  serverWriteKey : w'.state.serverWriteKey = w.state.serverWriteKey
  clientWriteKey : w'.state.clientWriteKey = w.state.clientWriteKey
  serverWriteIv : w'.state.serverWriteIv = w.state.serverWriteIv
  clientWriteIv : w'.state.clientWriteIv = w.state.clientWriteIv
  serverSecret : w'.state.serverHandshakeTrafficSecret = w.state.serverHandshakeTrafficSecret
  clientSecret : w'.state.clientHandshakeTrafficSecret = w.state.clientHandshakeTrafficSecret
  hashState : w'.state.hashState = w.state.hashState
  serverNonceCounter : w'.state.serverNonceCounter = w.state.serverNonceCounter
  clientNonceCounter : w'.state.clientNonceCounter = w.state.clientNonceCounter
  noServerHello : ∀ bs ∈ answers w w', ¬ IsServerHello bs
  refused : ∀ c ∈ calls, c.record.type = handshakeType → c.code ≠ 0

theorem holdsClientHello_of_parse {r : TLSPlaintext} {hs : Handshake} (hr : r.type = handshakeType)
    (hparse : parseHandshake r.fragment r.length.toNat = .ok hs)
    (hmsg : hs.msgType = clientHelloType) : HoldsClientHello r := by
  obtain ⟨-, hhead, -⟩ := parseHandshake_eq_ok.mp hparse
  exact ⟨hr, hmsg ▸ hhead⟩

/-- In the encrypted state a call without a ClientHello changes nothing. -/
theorem Outcome.quiet {ent : Entropy} {w w' : World} {r : TLSPlaintext} {rc : ℤ}
    (he : w.state.state = .encrypted) (hr : ¬ HoldsClientHello r) (h : Outcome S ent w r rc w') :
    w' = w.log (.received r) ∧ (r.type = handshakeType → rc ≠ 0) := by
  cases h with
  | answered x htype =>
    exact absurd (holdsClientHello_of_parse htype x.parsed x.isClientHello) hr
  | rejected _ htype hparse hmsg => exact absurd (holdsClientHello_of_parse htype hparse hmsg) hr
  | otherMessage _ _ _ => exact ⟨rfl, fun _ => by decide⟩
  | early _ hstate =>
    rw [he] at hstate
    cases hstate
  | ignored htype _ => exact ⟨rfl, fun h => absurd h htype⟩
  | unknown htype _ _ _ => exact ⟨rfl, fun h => absurd h htype⟩

theorem quiet_run {w w' : World} {calls : List Call} (he : w.state.state = .encrypted)
    (hrun : Run (Call.Step S) w calls w')
    (hcalls : ∀ c ∈ calls, ¬ HoldsClientHello c.record.toTLSPlaintext) :
    w'.state = w.state ∧
      w'.trace = w.trace ++ calls.map (fun c => .received c.record.toTLSPlaintext) ∧
        ∀ c ∈ calls, c.record.type = handshakeType → c.code ≠ 0 := by
  induction hrun with
  | nil => simp
  | @snoc calls c t u hrun hstep ih =>
    obtain ⟨hstate, htrace, hcodes⟩ := ih fun a ha => hcalls a (List.mem_append_left _ ha)
    obtain ⟨rfl, hcode⟩ := (mainStateMech_outcome S hstep).quiet S (hstate ▸ he) (hcalls c (by simp))
    refine ⟨hstate, ?_, ?_⟩
    · rw [World.log, htrace, List.map_append, List.append_assoc]
      rfl
    · intro a ha
      rcases List.mem_append.mp ha with ha | ha
      · exact hcodes a ha
      · rw [List.mem_singleton.mp ha]
        exact hcode

theorem OneHandshake.of_quiet {w w' : World} {calls : List Call}
    (hstate : w'.state = w.state)
    (htrace : w'.trace = w.trace ++ calls.map (fun c => .received c.record.toTLSPlaintext))
    (hcodes : ∀ c ∈ calls, c.record.type = handshakeType → c.code ≠ 0) :
    OneHandshake w calls w' := by
  have hnone : answers w w' = [] := by
    rw [answers, htrace, List.drop_left, List.filterMap_map]
    simp
  refine ⟨?_, ?_, ?_, ?_, ?_, ?_, ?_, ?_, ?_, ?_, hcodes⟩ <;> simp [hstate, hnone]

/-- The hash grows with every ClientHello that is received. -/
theorem Outcome.absorbed_length {ent : Entropy} {w w' : World} {r : TLSPlaintext} {rc : ℤ}
    (h : Outcome S ent w r rc w') :
    w.state.hashState.absorbed.length + (if HoldsClientHello r then 1 else 0) ≤
      w'.state.hashState.absorbed.length := by
  have hpos (hr : HoldsClientHello r) : 0 < r.fragment.length := by
    obtain ⟨-, hhead⟩ := hr
    cases hf : r.fragment with
    | nil => simp [hf] at hhead
    | cons b bs => simp
  cases h with
  | answered x htype =>
    have hr := holdsClientHello_of_parse htype x.parsed x.isClientHello
    have hlen := hpos hr
    rw [if_pos hr, x.absorbed_world]
    simp only [List.length_append]
    omega
  | rejected _ htype hparse hmsg =>
    have hr := holdsClientHello_of_parse htype hparse hmsg
    have hlen := hpos hr
    have habs : (((w.log (.received r)).absorb r.fragment).storeSharedSecret
        ‹Block 32›).state.hashState.absorbed = w.state.hashState.absorbed ++ r.fragment := rfl
    rw [if_pos hr, habs, List.length_append]
    omega
  | otherMessage htype hparse hmsg =>
    have hr : ¬ HoldsClientHello r := by
      rintro ⟨-, hhead⟩
      obtain ⟨-, hhead', -⟩ := parseHandshake_eq_ok.mp hparse
      rw [hhead] at hhead'
      exact hmsg (Option.some.inj hhead').symm
    rw [if_neg hr]
    exact le_rfl
  | early htype _ =>
    rw [if_neg fun hr => absurd (htype.symm.trans hr.1) (by decide)]
    exact le_rfl
  | ignored htype _ =>
    rw [if_neg fun hr => htype hr.1]
    exact le_rfl
  | unknown htype _ _ _ =>
    rw [if_neg fun hr => htype hr.1]
    exact le_rfl

/-- A run that left the hash alone was given no ClientHello. -/
theorem no_clientHello_of_hashState {w w' : World} {calls : List Call}
    (hrun : Run (Call.Step S) w calls w') (hhash : w'.state.hashState = w.state.hashState) :
    ∀ c ∈ calls, ¬ HoldsClientHello c.record.toTLSPlaintext := by
  have hlen := hrun.add_countP_le (fun c => HoldsClientHello c.record.toTLSPlaintext)
    (f := fun w => w.state.hashState.absorbed.length)
    fun hstep => (mainStateMech_outcome S hstep).absorbed_length S
  rw [hhash] at hlen
  have hzero : calls.countP (fun c => HoldsClientHello c.record.toTLSPlaintext) = 0 := by omega
  simpa [List.countP_eq_zero] using hzero

/-- From an encrypted state the handshake stays the only one of a run exactly when
no record of the run holds a ClientHello. -/
theorem one_handshake_iff {w w' : World} {calls : List Call}
    (he : w.state.state = .encrypted) (hrun : Run (Call.Step S) w calls w') :
    OneHandshake w calls w' ↔ ∀ c ∈ calls, ¬ HoldsClientHello c.record.toTLSPlaintext := by
  constructor
  · intro h
    exact no_clientHello_of_hashState S hrun h.hashState
  · intro hcalls
    obtain ⟨hstate, htrace, hcodes⟩ := quiet_run S he hrun hcalls
    exact OneHandshake.of_quiet hstate htrace hcodes

theorem length_sampleFinished : ([20, 0, 0, 0] : Bytes).length < 256 ^ 2 := by decide

/-- A Finished message in the clear, without its body. -/
def sampleFinished : Record := Record.ofFragment handshakeType [20, 0, 0, 0] length_sampleFinished

theorem mainStateMech_sampleFinished (w : World) :
    mainStateMech S sampleEntropy w sampleFinished.toTLSPlaintext =
      .ok (-2, w.log (.received sampleFinished.toTLSPlaintext)) := rfl

/-- After the sample ClientHello a change_cipher_spec record is passed over and a
Finished in the clear is refused. -/
theorem one_handshake_sample :
    ∃ w w', Reachable Sodium.reference w ∧ w.state.state = .encrypted ∧
      Run (Call.Step Sodium.reference) w
        [⟨sampleEntropy, sampleCcs, 0⟩, ⟨sampleEntropy, sampleFinished, -2⟩] w' ∧
      OneHandshake w [⟨sampleEntropy, sampleCcs, 0⟩, ⟨sampleEntropy, sampleFinished, -2⟩] w' := by
  obtain ⟨x, hfirst⟩ := run_sample
  have hw : Reachable Sodium.reference x.world := ⟨sampleHeap, _, hfirst⟩
  have hccs : Call.Step Sodium.reference x.world ⟨sampleEntropy, sampleCcs, 0⟩ _ :=
    mainStateMech_sampleCcs x.world
  have hfinished : Call.Step Sodium.reference _ ⟨sampleEntropy, sampleFinished, -2⟩ _ :=
    mainStateMech_sampleFinished Sodium.reference (x.world.log (.received sampleCcs.toTLSPlaintext))
  have hrun := Run.cons hccs (Run.single hfinished)
  exact ⟨_, _, hw, rfl, hrun, (one_handshake_iff Sodium.reference rfl hrun).mpr (by decide)⟩

/-- The sample ClientHello sent again is answered again. -/
theorem not_oneHandshake_again :
    ¬ ∀ w calls w', Reachable Sodium.reference w → w.state.state = .encrypted →
      Run (Call.Step Sodium.reference) w calls w' → OneHandshake w calls w' := by
  intro h
  obtain ⟨x, hfirst⟩ := run_sample
  have hw : Reachable Sodium.reference x.world := ⟨sampleHeap, _, hfirst⟩
  obtain ⟨y, hagain⟩ := mainStateMech_sample hw hello_sampleRecord
  have hrun : Run (Call.Step Sodium.reference) x.world [⟨sampleEntropy, sampleRecord, 0⟩] y.world :=
    Run.single hagain
  exact (h _ _ _ hw rfl hrun).refused _ (List.mem_singleton.mpr rfl) rfl rfl

end TLS13
