import ChainRelay.Curve.Secp256k1
import ChainRelay.Digest.Hmac

/-! # Signatures

Digests are signed with a nonce that is derived from the key and the digest, so the same digest
always gets the same signature. Of the two signatures with the same first half, the one with the
lower second half is taken. -/

namespace ChainRelay.Curve

open Digest

/-- A signature, and whether the point of its nonce has an odd second coordinate. -/
structure Signature where
  r : Nat
  s : Nat
  odd : Bool
  deriving DecidableEq, Repr

/-- The state of the generator of nonces. -/
structure NonceState where
  key : List UInt8
  value : List UInt8

namespace NonceState

/-- Mix bytes into the state. -/
def mix (n : NonceState) (mark : UInt8) (more : List UInt8) : NonceState :=
  let key := Hash.sha256.hmac n.key (n.value ++ mark :: more)
  { key, value := Hash.sha256.hmac key n.value }

/-- The state for a key and a digest. -/
def start (secret digest : List UInt8) : NonceState :=
  let n : NonceState := { key := List.replicate 32 0, value := List.replicate 32 1 }
  (n.mix 0 (secret ++ digest)).mix 1 (secret ++ digest)

/-- The first candidate between one and the order of the group. -/
def next : (fuel : Nat) → NonceState → Nat
  | 0, _ => 1
  | fuel + 1, n =>
    let value := Hash.sha256.hmac n.key n.value
    let candidate := bigEndian value
    if 0 < candidate ∧ candidate < groupOrder then candidate
    else next fuel ({ n with value }.mix 0 [])

end NonceState

/-- The signature of a digest of 32 bytes. -/
def sign (secret : Nat) (digest : List UInt8) : Signature :=
  let z := bigEndian digest
  let nonce := (NonceState.start (toBigEndian 32 secret) digest).next 64
  let (x, y) := publicPoint nonce
  let r := x % groupOrder
  let s := inverse groupOrder nonce * (z + r * secret) % groupOrder
  if groupOrder / 2 < s then { r, s := groupOrder - s, odd := y % 2 == 0 }
  else { r, s, odd := y % 2 == 1 }

/-- Both halves and 27, or 28 for an odd point. -/
def Signature.bytes (g : Signature) : List UInt8 :=
  toBigEndian 32 g.r ++ toBigEndian 32 g.s ++ [if g.odd then 28 else 27]

end ChainRelay.Curve
