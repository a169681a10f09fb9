import TLS13.Hello

/-! Sequence numbers of the protected records. The counter is set to zero when a
key is installed and nothing counts the record that is sealed next, so from the
first answer on the counter is one short and the nonce it gives is a used one. -/

namespace TLS13

open Lib

variable (S : Sodium)

/-- The records and nonces sealed since the last key was installed. -/
def underKey (trace : List Event) : List (TLSPlaintext × Block 12) :=
  trace.foldl (fun acc e =>
    match e with
    | .installed _ => []
    | .sealed r _ nonce => acc ++ [(r, nonce)]
    | _ => acc) []

theorem underKey_append (trace events : List Event) :
    underKey (trace ++ events) = events.foldl (fun acc e =>
      match e with
      | .installed _ => []
      | .sealed r _ nonce => acc ++ [(r, nonce)]
      | _ => acc) (underKey trace) := List.foldl_append

/-- The counter is the number of records sealed under the current key. -/
def CountsRecords (w : World) : Prop :=
  w.state.serverNonceCounter.toNat = (underKey w.trace).length

/-- The nonce of the next record was not used under the current key. -/
def NextNonceFresh (w : World) : Prop :=
  generateNonce w.state.serverWriteIv w.state.serverNonceCounter ∉
    (underKey w.trace).map Prod.snd

/-- In the encrypted state one record is sealed, with sequence number zero, and
the counter is zero. -/
def OneSealed (w : World) : Prop :=
  w.state.state = .encrypted →
    w.state.serverNonceCounter = 0 ∧
      underKey w.trace = [(⟨handshakeType, [], 6, nullEncryptedExtensions⟩,
        Rfc.recordNonce w.state.serverWriteIv 0)]

/-- What neither installs nor seals keeps the fact. -/
theorem OneSealed.of_quiet {w w' : World} (hw : OneSealed w)
    (hstate : w'.state.state = w.state.state) (hiv : w'.state.serverWriteIv = w.state.serverWriteIv)
    (hcounter : w'.state.serverNonceCounter = w.state.serverNonceCounter)
    (htrace : underKey w'.trace = underKey w.trace) : OneSealed w' := by
  intro he
  rw [hstate] at he
  rw [hcounter, htrace, hiv]
  exact hw he

/-- An answer installs a key and seals one record; no other outcome does either. -/
theorem OneSealed.step {ent : Entropy} {w w' : World} {r : TLSPlaintext} {rc : ℤ}
    (hw : OneSealed w) (h : Outcome S ent w r rc w') : OneSealed w' := by
  cases h with
  | answered x _ =>
    intro _
    refine ⟨rfl, ?_⟩
    rw [x.trace_world, underKey_append]
    rfl
  | rejected _ _ _ _ => exact hw.of_quiet rfl rfl rfl (underKey_append _ _)
  | otherMessage _ _ _ => exact hw.of_quiet rfl rfl rfl (underKey_append _ _)
  | early _ _ =>
    exact hw.of_quiet rfl rfl rfl ((underKey_append _ _).trans (underKey_append _ _))
  | ignored _ _ => exact hw.of_quiet rfl rfl rfl (underKey_append _ _)
  | unknown _ _ _ _ => exact hw.of_quiet rfl rfl rfl (underKey_append _ _)

theorem Reachable.oneSealed {w : World} (h : Reachable S w) : OneSealed w :=
  h.invariant S OneSealed (fun _ he => by cases he) fun hw hout => hw.step S hout

theorem OneSealed.not_countsRecords {w : World} (h : OneSealed w) (he : w.state.state = .encrypted) :
    ¬ CountsRecords w := by
  obtain ⟨hcounter, hsealed⟩ := h he
  intro hcount
  rw [CountsRecords, hcounter, hsealed] at hcount
  cases hcount

theorem OneSealed.not_nextNonceFresh {w : World} (h : OneSealed w)
    (he : w.state.state = .encrypted) : ¬ NextNonceFresh w := by
  obtain ⟨hcounter, hsealed⟩ := h he
  intro hfresh
  apply hfresh
  rw [hsealed, hcounter, generateNonce_eq]
  exact List.mem_singleton.mpr rfl

/-- In no run does an encrypted state have the right counter, and the nonce it
gives the next record was used already. -/
theorem sequence_numbers_wrong {heap : Allocated} {calls : List Call} {w : World}
    (hrun : Run (Call.Step S) (World.init heap) calls w) (he : w.state.state = .encrypted) :
    ¬ CountsRecords w ∧ ¬ NextNonceFresh w := by
  have hsealed := Reachable.oneSealed S ⟨heap, calls, hrun⟩
  exact ⟨hsealed.not_countsRecords he, hsealed.not_nextNonceFresh he⟩

/-- One ClientHello, after which the state is encrypted. -/
theorem sequence_numbers_wrong_sample :
    ∃ calls w, Run (Call.Step Sodium.reference) (World.init sampleHeap) calls w ∧
      ¬ CountsRecords w ∧ ¬ NextNonceFresh w := by
  obtain ⟨x, hrun⟩ := run_sample
  exact ⟨_, _, hrun, sequence_numbers_wrong _ hrun rfl⟩

/-- After the sample ClientHello, which is answered with code 0, the counter
stands at the number of the record just sealed. -/
theorem not_countsRecords_sample :
    ¬ ∀ heap calls c w, Run (Call.Step Sodium.reference) (World.init heap) (calls ++ [c]) w →
      c.code = 0 → w.state.state = .encrypted → CountsRecords w ∧ NextNonceFresh w := by
  intro h
  obtain ⟨x, hrun⟩ := run_sample
  have hsealed := Reachable.oneSealed _ ⟨sampleHeap, _, hrun⟩
  exact hsealed.not_countsRecords rfl (h sampleHeap [] _ _ hrun rfl rfl).1

end TLS13
