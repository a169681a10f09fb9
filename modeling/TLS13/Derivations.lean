import TLS13.KeySchedule

/-! The info strings of the key schedule. `HKDF_Expand_Label` fills its buffer with
the encoding of its length, label and context, and the encoding determines all
three, so calls that differ in one of them expand different strings. The
derivations of the key schedule differ in their labels or in the transcript. -/

namespace TLS13

open Lib

/-! ### Calls of `HKDF_Expand_Label` -/

/-- What a call passes besides the secret: a label that fits behind its length of
eight bits, and as many bytes of context as are stated. -/
structure LabelCall where
  label : Bytes
  context : Bytes
  contextLength : UInt8
  length : UInt16
  label_le : label.length ≤ 249
  context_size : context.length = contextLength.toNat

namespace LabelCall

/-- The info string of the call, as it is assembled in `buf`. -/
def info (c : LabelCall) : Checked Bytes :=
  hkdfExpandLabelInfo c.label c.context c.contextLength c.length

theorem info_eq (c : LabelCall) : c.info = .ok (Rfc.hkdfLabel c.label c.context c.length.toNat) :=
  hkdfExpandLabelInfo_eq c.length c.label_le c.context_size

/-- The call expands the secret under that string. -/
theorem hkdfExpandLabel_eq (S : Sodium) (c : LabelCall) (secret : Block 32) :
    hkdfExpandLabel S secret c.label c.context c.contextLength c.length =
      .ok (S.kdfExpand c.length.toNat (Rfc.hkdfLabel c.label c.context c.length.toNat) secret) :=
  TLS13.hkdfExpandLabel_eq S secret c.length c.label_le c.context_size

theorem context_le (c : LabelCall) : c.context.length ≤ 255 := by
  have hlt := c.contextLength.toNat_lt
  rw [c.context_size]
  omega

/-- The info string determines the call. -/
theorem info_inj {c c' : LabelCall} :
    c.info = c'.info ↔ (c.length, c.label, c.context) = (c'.length, c'.label, c'.context) := by
  rw [info_eq, info_eq, Except.ok.injEq]
  constructor
  · intro h
    obtain ⟨hlabel, hcontext, hlength⟩ := Rfc.hkdfLabel_inj c.label_le c'.label_le c.context_le
      c'.context_le c.length.toNat_lt c'.length.toNat_lt h
    rw [hlabel, hcontext, UInt16.toNat_inj.mp hlength]
  · intro h
    simp only [Prod.mk.injEq] at h
    obtain ⟨hlength, hlabel, hcontext⟩ := h
    rw [hlength, hlabel, hcontext]

end LabelCall

/-! ### The derivations -/

/-- What the functions of the key schedule derive, with the transcript hash where
they take one. -/
inductive Derivation
  | derived
  | clientHandshakeTraffic (transciptHash : Block 32)
  | serverHandshakeTraffic (transciptHash : Block 32)
  | clientApplicationTraffic (transciptHash : Block 32)
  | serverApplicationTraffic (transciptHash : Block 32)
  | finishedKey
  | writeKey
  | writeIv

namespace Derivation

def label : Derivation → Bytes
  | derived => ascii ['d', 'e', 'r', 'i', 'v', 'e', 'd']
  | clientHandshakeTraffic _ => ascii ['c', ' ', 'h', 's', ' ', 't', 'r', 'a', 'f', 'f', 'i', 'c']
  | serverHandshakeTraffic _ => ascii ['s', ' ', 'h', 's', ' ', 't', 'r', 'a', 'f', 'f', 'i', 'c']
  | clientApplicationTraffic _ => ascii ['c', ' ', 'a', 'p', ' ', 't', 'r', 'a', 'f', 'f', 'i', 'c']
  | serverApplicationTraffic _ => ascii ['s', ' ', 'a', 'p', ' ', 't', 'r', 'a', 'f', 'f', 'i', 'c']
  | finishedKey => ascii ['f', 'i', 'n', 'i', 's', 'h', 'e', 'd']
  | writeKey => ascii ['k', 'e', 'y']
  | writeIv => ascii ['i', 'v']

variable (S : Sodium)

def context : Derivation → Bytes
  | derived => (S.hashSha256 []).val
  | clientHandshakeTraffic transciptHash => transciptHash.val
  | serverHandshakeTraffic transciptHash => transciptHash.val
  | clientApplicationTraffic transciptHash => transciptHash.val
  | serverApplicationTraffic transciptHash => transciptHash.val
  | finishedKey => []
  | writeKey => []
  | writeIv => []

def contextLength : Derivation → UInt8
  | finishedKey => 0
  | writeKey => 0
  | writeIv => 0
  | _ => 32

def length : Derivation → UInt16
  | writeIv => 12
  | _ => 32

/-- The call of `HKDF_Expand_Label` that makes the derivation. -/
def call (d : Derivation) : LabelCall where
  label := d.label
  context := d.context S
  contextLength := d.contextLength
  length := d.length
  label_le := by cases d <;> simp [label]
  context_size := by cases d <;> simp [context, contextLength]

/-- The output of the call under a secret. -/
def expand (secret : Block 32) (d : Derivation) : Checked (Block (d.call S).length.toNat) :=
  hkdfExpandLabel S secret (d.call S).label (d.call S).context (d.call S).contextLength
    (d.call S).length

theorem call_inj {d d' : Derivation} :
    (d.call S).label = (d'.call S).label ∧ (d.call S).context = (d'.call S).context ↔ d = d' := by
  constructor
  · rintro ⟨hlabel, hcontext⟩
    -- the labels tell the derivations apart, the context their transcripts
    cases d <;> cases d' <;> cases hlabel
    all_goals
      first
      | rfl
      | exact congrArg _ (Subtype.ext hcontext)
  · rintro rfl
    exact ⟨rfl, rfl⟩

theorem info_inj {d d' : Derivation} : (d.call S).info = (d'.call S).info ↔ d = d' := by
  constructor
  · intro h
    have htriple := LabelCall.info_inj.mp h
    simp only [Prod.mk.injEq] at htriple
    exact (call_inj S).mp htriple.2
  · rintro rfl
    rfl

end Derivation

/-- What the functions of the key schedule expand, each under the secret it is given. -/
structure ExpandsDerivations (S : Sodium) (secret sharedSecret transciptHash : Block 32) : Prop where
  baseDerivedSecret : processBaseDerivedSecret S = Derivation.derived.expand S (Rfc.earlySecret S)
  handshakeSecret : processHandshakeSecret S sharedSecret none = do
    let derivedSecret ← processBaseDerivedSecret S
    return S.kdfExtract derivedSecret.val sharedSecret.val
  clientHandshakeTrafficSecret :
    processClientHandshakeTrafficSecret S sharedSecret transciptHash = do
      let handshakeSecret ← processHandshakeSecret S sharedSecret none
      (Derivation.clientHandshakeTraffic transciptHash).expand S handshakeSecret
  serverHandshakeTrafficSecret :
    processServerHandshakeTrafficSecret S sharedSecret transciptHash = do
      let handshakeSecret ← processHandshakeSecret S sharedSecret none
      (Derivation.serverHandshakeTraffic transciptHash).expand S handshakeSecret
  masterSecret : processMasterSecret S secret = do
    let derivedSecret ← Derivation.derived.expand S secret
    return S.kdfExtract derivedSecret.val (Block.zero 32).val
  clientApplicationTrafficSecret :
    processClientApplicationTrafficSecret0 S secret transciptHash =
      (Derivation.clientApplicationTraffic transciptHash).expand S secret
  serverApplicationTrafficSecret :
    processServerApplicationTrafficSecret0 S secret transciptHash =
      (Derivation.serverApplicationTraffic transciptHash).expand S secret
  finishedKey : generateFinishedKey S secret = Derivation.finishedKey.expand S secret
  writeKey : generateWriteKey S secret = Derivation.writeKey.expand S secret
  writeIv : generateWriteIv S secret = Derivation.writeIv.expand S secret

theorem expandsDerivations (S : Sodium) (secret sharedSecret transciptHash : Block 32) :
    ExpandsDerivations S secret sharedSecret transciptHash := by
  constructor
  -- the traffic secrets are derived from a handshake secret that is computed again
  case clientHandshakeTrafficSecret | serverHandshakeTrafficSecret =>
    simp only [processClientHandshakeTrafficSecret, processServerHandshakeTrafficSecret,
      processHandshakeTrafficSecret, processHandshakeSecret, processBaseDerivedSecret_eq,
      Checked.bind_ok, Checked.pure_eq]
    rfl
  all_goals rfl

/-- Each call fills its buffer with the encoding of its length, label and context,
and expands the secret under it. Calls that differ in one of the three use different
info strings, and so do any two derivations that the key schedule makes. -/
theorem hkdf_label_separation (S : Sodium) :
    (∀ (c : LabelCall) (secret : Block 32), ∃ buf, c.info = .ok buf ∧
      buf.length = 2 + 1 + 6 + c.label.length + 1 + c.contextLength.toNat ∧
      buf = Rfc.hkdfLabel c.label c.context c.length.toNat ∧
      hkdfExpandLabel S secret c.label c.context c.contextLength c.length =
        .ok (S.kdfExpand c.length.toNat buf secret)) ∧
    (∀ c c' : LabelCall, c.info = c'.info ↔
      (c.length, c.label, c.context) = (c'.length, c'.label, c'.context)) ∧
    (∀ secret sharedSecret transciptHash,
      ExpandsDerivations S secret sharedSecret transciptHash) ∧
    ∀ d d' : Derivation, (d.call S).info = (d'.call S).info ↔ d = d' := by
  refine ⟨?_, fun _ _ => LabelCall.info_inj, expandsDerivations S,
    fun _ _ => Derivation.info_inj S⟩
  intro c secret
  refine ⟨_, c.info_eq, ?_, rfl, c.hkdfExpandLabel_eq S secret⟩
  rw [Rfc.length_hkdfLabel, c.context_size]
  omega

end TLS13
