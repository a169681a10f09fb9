import TLS13.Session

/-! The keys over the life of a connection. Each answer derives a write key from
a transcript longer than every one before, seals one record under it with
sequence number zero, and never comes back to it. So a key and nonce that serve
twice are a collision of the key derivation on two transcripts of the connection. -/

namespace TLS13

open Lib

/-- What a handshake derives its keys from. -/
structure Keying where
  sharedSecret : Block 32
  transcript : Bytes

variable (S : Sodium)

namespace Keying

def secret (k : Keying) : Block 32 :=
  Rfc.serverHandshakeTrafficSecret S k.sharedSecret (S.hashSha256 k.transcript)

/-- The server's write key. -/
def key (k : Keying) : Block 32 := Rfc.writeKey S (k.secret S)

/-- The key and the nonce of the first record under it. -/
def firstUse (k : Keying) : Block 32 × Block 12 :=
  (k.key S, Rfc.recordNonce (Rfc.writeIv S (k.secret S)) 0)

end Keying

def Event.sealedUse : Event → Option (Block 32 × Block 12)
  | .sealed _ key nonce => some (key, nonce)
  | _ => none

def sealedUses (trace : List Event) : List (Block 32 × Block 12) :=
  trace.filterMap Event.sealedUse

theorem sealedUses_append (trace events : List Event) :
    sealedUses (trace ++ events) = sealedUses trace ++ sealedUses events :=
  List.filterMap_append

/-- What the keys of the last handshake came from, when its call has just returned. -/
def World.keying (w : World) : Keying := ⟨w.state.sharedSecret, w.state.hashState.absorbed⟩

def Call.Answers (c : Call) : Prop := c.code = 0 ∧ c.record.type = handshakeType

/-- The handshakes of a run, oldest first, each as the call that answered left it. -/
inductive Handshakes (heap : Allocated) : List Call → World → List Keying → Prop
  | nil : Handshakes heap [] (World.init heap) []
  | answered {calls : List Call} {c : Call} {t u : World} {ks : List Keying} :
      Handshakes heap calls t ks → c.Step S t u → c.Answers →
      Handshakes heap (calls ++ [c]) u (ks ++ [u.keying])
  | unanswered {calls : List Call} {c : Call} {t u : World} {ks : List Keying} :
      Handshakes heap calls t ks → c.Step S t u → ¬ c.Answers →
      Handshakes heap (calls ++ [c]) u ks

/-- One key was installed and one record sealed for each handshake, and the
transcripts go on from one to the next and end in what the hash has absorbed. -/
structure KeyHistory (w : World) (ks : List Keying) : Prop where
  installed : installedKeys w.trace = ks.map (Keying.key S)
  uses : sealedUses w.trace = ks.map (Keying.firstUse S)
  growing : ks.Pairwise fun k k' => k.transcript.length < k'.transcript.length
  absorbed : ∀ k ∈ ks, k.transcript <+: w.state.hashState.absorbed

variable {S}

namespace KeyHistory

variable {w w' : World} {ks : List Keying}

theorem quiet (h : KeyHistory S w ks) (events : List Event)
    (htrace : w'.trace = w.trace ++ events) (hkeys : installedKeys events = [])
    (huses : sealedUses events = [])
    (hgrows : w.state.hashState.absorbed <+: w'.state.hashState.absorbed) :
    KeyHistory S w' ks where
  installed := by rw [htrace, installedKeys_append, hkeys, List.append_nil, h.installed]
  uses := by rw [htrace, sealedUses_append, huses, List.append_nil, h.uses]
  growing := h.growing
  absorbed k hk := (h.absorbed k hk).trans hgrows

/-- An answer adds the handshake on the transcript that ends with its ServerHello. -/
theorem answered (h : KeyHistory S w ks) {ent : Entropy} {r : TLSPlaintext}
    (x : Exchange S ent w r) : KeyHistory S x.world (ks ++ [x.world.keying]) := by
  have hreply : 0 < x.reply.length := by
    rw [Exchange.reply, length_serverHelloMessage]
    omega
  have hgrows : w.state.hashState.absorbed <+: x.world.state.hashState.absorbed := by
    rw [x.absorbed_world, List.append_assoc]
    exact List.prefix_append _ _
  have hlonger : w.state.hashState.absorbed.length < x.world.state.hashState.absorbed.length := by
    rw [x.absorbed_world, List.length_append, List.length_append]
    omega
  refine ⟨?_, ?_, ?_, ?_⟩
  · rw [x.trace_world, installedKeys_append, h.installed, List.map_append]
    rfl
  · rw [x.trace_world, sealedUses_append, h.uses, List.map_append]
    rfl
  · refine List.pairwise_append.mpr ⟨h.growing, List.pairwise_singleton _ _, ?_⟩
    intro k hk k' hk'
    obtain rfl := List.mem_singleton.mp hk'
    exact (h.absorbed k hk).length_le.trans_lt hlonger
  · intro k hk
    rcases List.mem_append.mp hk with hk | hk
    · exact (h.absorbed k hk).trans hgrows
    · obtain rfl := List.mem_singleton.mp hk
      exact List.prefix_rfl

theorem unanswered (h : KeyHistory S w ks) {ent : Entropy} {r : TLSPlaintext} {rc : ℤ}
    (hout : Outcome S ent w r rc w') (hcall : ¬ (rc = 0 ∧ r.type = handshakeType)) :
    KeyHistory S w' ks := by
  have hgrows := hout.absorbed_prefix
  cases hout with
  | answered _ htype => exact absurd ⟨rfl, htype⟩ hcall
  | early _ _ => exact h.quiet [.received r, .wrote _] (List.append_assoc _ _ _) rfl rfl hgrows
  | rejected _ _ _ _ | otherMessage _ _ _ | ignored _ _ | unknown _ _ _ _ =>
    exact h.quiet [.received r] rfl rfl rfl hgrows

/-- Keys that are told apart by their transcripts are used once. -/
theorem nodup_uses (h : KeyHistory S w ks)
    (hne : ∀ k ∈ ks, ∀ k' ∈ ks, k.transcript ≠ k'.transcript → k.key S ≠ k'.key S) :
    (sealedUses w.trace).Nodup := by
  rw [h.uses, List.Nodup, List.pairwise_map]
  refine h.growing.imp_of_mem ?_
  intro k k' hk hk' hlen huse
  have htranscript : k.transcript ≠ k'.transcript := fun heq => by
    rw [heq] at hlen
    exact lt_irrefl _ hlen
  exact hne k hk k' hk' htranscript (congrArg Prod.fst huse)

end KeyHistory

theorem exists_handshakes {heap : Allocated} {calls : List Call} {w : World}
    (hrun : Run (Call.Step S) (World.init heap) calls w) :
    ∃ ks, Handshakes S heap calls w ks ∧ KeyHistory S w ks := by
  induction hrun with
  | nil => exact ⟨[], .nil, rfl, rfl, List.Pairwise.nil, by simp⟩
  | @snoc calls c t u hrun hstep ih =>
    obtain ⟨ks, hks, hhistory⟩ := ih
    have hout := mainStateMech_outcome S hstep
    by_cases hcall : c.Answers
    · refine ⟨_, hks.answered hstep hcall, ?_⟩
      obtain ⟨hcode, htype⟩ := hcall
      rw [hcode] at hout
      rcases hout.of_zero with ⟨x, -, rfl⟩ | ⟨hother, -⟩
      · exact hhistory.answered x
      · exact absurd htype hother
    · exact ⟨ks, hks.unanswered hstep hcall, hhistory.unanswered hout hcall⟩

/-- In every run the keys that were installed are those of its handshakes, each
sealed one record with its first nonce, and no key serves with one nonce twice, unless
two of these handshakes have different transcripts and the same key. -/
theorem keys_used_once {heap : Allocated} {calls : List Call} {w : World}
    (hrun : Run (Call.Step S) (World.init heap) calls w) :
    ∃ ks, Handshakes S heap calls w ks ∧ KeyHistory S w ks ∧
      (sealedUses w.trace).map Prod.fst = installedKeys w.trace ∧
      ((sealedUses w.trace).Nodup ∨
        ∃ k ∈ ks, ∃ k' ∈ ks, k.transcript ≠ k'.transcript ∧ k.key S = k'.key S) := by
  obtain ⟨ks, hks, hhistory⟩ := exists_handshakes hrun
  refine ⟨ks, hks, hhistory, ?_, ?_⟩
  · rw [hhistory.uses, hhistory.installed, List.map_map]
    rfl
  · by_cases hne : ∀ k ∈ ks, ∀ k' ∈ ks, k.transcript ≠ k'.transcript → k.key S ≠ k'.key S
    · exact .inl (hhistory.nodup_uses hne)
    · push Not at hne
      exact .inr hne

/-- The sample ClientHello is answered twice, and each answer seals one record. -/
theorem keys_used_once_sample :
    ∃ calls w ks, Run (Call.Step Sodium.reference) (World.init sampleHeap) calls w ∧
      Handshakes Sodium.reference sampleHeap calls w ks ∧
      (installedKeys w.trace).length = 2 ∧
      (sealedUses w.trace).map Prod.fst = installedKeys w.trace := by
  obtain ⟨x, hrun⟩ := run_sample
  have hw : Reachable Sodium.reference x.world := ⟨sampleHeap, _, hrun⟩
  obtain ⟨y, hagain⟩ := mainStateMech_sample hw hello_sampleRecord
  have hstep : Call.Step Sodium.reference x.world ⟨sampleEntropy, sampleRecord, 0⟩ y.world := hagain
  obtain ⟨ks, hks, -, huses, -⟩ := keys_used_once (hrun.snoc hstep)
  refine ⟨_, _, ks, hrun.snoc hstep, hks, ?_, huses⟩
  rw [y.trace_world, x.trace_world]
  rfl

end TLS13
