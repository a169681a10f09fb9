import TLS13.Lib.Checked

/-! The functions of libsodium that the server calls, as parameters. Buffer
sizes are part of the types; whatever else the server relies on is a named
property, assumed only where it is used. A streaming SHA-256 state is the
string it has absorbed: `init` absorbs nothing, `update` appends, and `final`
hashes what was absorbed. -/

namespace TLS13

open Lib

structure Sodium where
  /-- `crypto_hash_sha256` -/
  hashSha256 : Bytes → Block 32
  /-- `crypto_kdf_hkdf_sha256_extract`, salt first -/
  kdfExtract : Bytes → Bytes → Block 32
  /-- `crypto_kdf_hkdf_sha256_expand`: output length, context, key -/
  kdfExpand : (n : ℕ) → Bytes → Block 32 → Block n
  /-- `crypto_aead_chacha20poly1305_ietf_encrypt`: message, additional data, nonce, key -/
  aeadEncrypt : (m : Bytes) → Bytes → Block 12 → Block 32 → Block (m.length + 16)
  /-- `crypto_aead_chacha20poly1305_ietf_decrypt`: ciphertext, additional data, nonce, key -/
  aeadDecrypt : Bytes → Bytes → Block 12 → Block 32 → Option Bytes
  /-- `crypto_scalarmult_base`, `none` for a nonzero return code -/
  scalarmultBase : Block 32 → Option (Block 32)
  /-- `crypto_scalarmult`: scalar, point -/
  scalarmult : Block 32 → Block 32 → Option (Block 32)
  /-- What a failing `crypto_scalarmult` leaves in its output buffer -/
  scalarmultResidue : Block 32 → Block 32 → Block 32 → Block 32

namespace Sodium

/-- Opening inverts sealing when key, nonce and additional data match. -/
def OpensSealed (S : Sodium) : Prop :=
  ∀ (m ad : Bytes) (npub : Block 12) (k : Block 32),
    S.aeadDecrypt (S.aeadEncrypt m ad npub k).val ad npub k = some m

/-- The two sides of a key exchange with the scalars `a` and `b` agree. -/
def Agree (S : Sodium) (a b : Block 32) : Prop :=
  ∀ pa pb, S.scalarmultBase a = some pa → S.scalarmultBase b = some pb →
    S.scalarmult a pb = S.scalarmult b pa

end Sodium

/-- `crypto_hash_sha256_state` -/
structure HashState where
  absorbed : Bytes
  deriving DecidableEq, Repr

namespace HashState

def init : HashState := ⟨[]⟩

def update (s : HashState) (bs : Bytes) : HashState := ⟨s.absorbed ++ bs⟩

def final (s : HashState) (S : Sodium) : Block 32 := S.hashSha256 s.absorbed

end HashState

end TLS13
