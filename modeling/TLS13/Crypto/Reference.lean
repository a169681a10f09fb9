import TLS13.Crypto.Sha256
import TLS13.Crypto.X25519
import TLS13.Sodium

/-! The functions of libsodium as their standards define them. `crypto_scalarmult`
fails on a zero result, which only points of small order give; it finds them
before it writes its output, so the buffer keeps what it held. -/

namespace TLS13.Sodium

open Lib Crypto

def reference : Sodium where
  hashSha256 := sha256
  kdfExtract := hkdfExtract
  kdfExpand := hkdfExpand
  aeadEncrypt := aeadSeal
  aeadDecrypt := aeadOpen
  scalarmultBase n := some (x25519 n basePoint)
  scalarmult n p :=
    let q := x25519 n p
    if q = Block.zero 32 then none else some q
  scalarmultResidue q _ _ := q

theorem scalarmult_reference {n p : Block 32} (h : x25519 n p ≠ Block.zero 32) :
    reference.scalarmult n p = some (x25519 n p) := if_neg h

theorem opensSealed_reference : reference.OpensSealed := aeadOpen_aeadSeal

end TLS13.Sodium
