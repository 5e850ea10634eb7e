import ChainRelay.Curve.Secp256k1
import ChainRelay.Digest.Hmac
import ChainRelay.Text.Raw

/-! # Key derivation

A seed gives a master key; every key gives children by index. The key of a hardened child depends on
the secret of its parent, that of any other child only on the public point. -/

namespace ChainRelay.Wallet

open Digest Curve

/-- The indices that lead from the master key to a key. -/
abbrev DerivationPath := List UInt32

/-- The least index of a hardened child. -/
def hardened : UInt32 := 0x80000000

/-- The number that decimal digits write after an optional plus, if it has 32 bits. -/
def readIndex? (cs : List Char) : Option UInt32 :=
  let digits := match cs with
    | '+' :: rest => rest
    | cs => cs
  if digits.isEmpty || !digits.all Char.isDigit then none
  else
    let n := digits.foldl (fun n d => n * 10 + (d.toNat - 48)) 0
    if n < UInt32.size then some (UInt32.ofNat n) else none

/-- One step of a path: an index, hardened if a quote or `h` follows. -/
def readStep? (s : String) : Option UInt32 :=
  match s.toList.reverse with
  | '\'' :: rest => (readIndex? rest.reverse).map (· + hardened)
  | 'h' :: rest => (readIndex? rest.reverse).map (· + hardened)
  | _ => readIndex? s.toList

/-- A path of steps between slashes; an `m` stands for the master key wherever it is. -/
def readPath? (s : String) : Option DerivationPath :=
  ((s.splitOn "/").filter (· ≠ "m")).mapM readStep?

/-- A secret with the code that its children are derived with. -/
structure ExtendedKey where
  secret : Nat
  code : List UInt8
  deriving DecidableEq, Repr

namespace ExtendedKey

/-- The key in 64 bytes, if its secret is one of the group. -/
def ofBytes? (parent : Nat) (bytes : List UInt8) : Option ExtendedKey :=
  let tweak := bigEndian (bytes.take 32)
  let secret := (tweak + parent) % groupOrder
  if tweak < groupOrder ∧ secret ≠ 0 then some { secret, code := bytes.drop 32 } else none

/-- The master key of a seed. -/
def master? (seed : List UInt8) : Option ExtendedKey :=
  ofBytes? 0 (Hash.sha512.hmac (utf8Bytes "Bitcoin seed") seed)

/-- The compressed public point: its parity and its first coordinate. -/
def publicBytes (k : ExtendedKey) : List UInt8 :=
  let (x, y) := publicPoint k.secret
  (if y % 2 = 0 then 2 else 3) :: toBigEndian 32 x

/-- The child of an index. -/
def child? (k : ExtendedKey) (index : UInt32) : Option ExtendedKey :=
  let parent := if hardened ≤ index then 0 :: toBigEndian 32 k.secret else k.publicBytes
  ofBytes? k.secret (Hash.sha512.hmac k.code (parent ++ toBigEndian 4 index.toNat))

/-- The key at a path. -/
def derive? (k : ExtendedKey) (path : DerivationPath) : Option ExtendedKey :=
  path.foldlM child? k

end ExtendedKey

end ChainRelay.Wallet
