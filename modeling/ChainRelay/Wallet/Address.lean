import ChainRelay.Curve.Secp256k1
import ChainRelay.Digest.Keccak
import ChainRelay.Json.Shape
import ChainRelay.Text.Hex

/-! # Account addresses

An address is twenty bytes: the end of the digest of a public point. Its text has a checksum in the
case of its letters. -/

namespace ChainRelay

open Digest

/-- The address of an account or contract. -/
structure Address where
  bytes : List UInt8
  length_eq : bytes.length = 20
  deriving DecidableEq

namespace Address

/-- The number of bytes in an address. -/
def size : Nat := 20

/-- The address of some bytes, if there are twenty. -/
def ofBytes? (bytes : List UInt8) : Option Address :=
  if h : bytes.length = 20 then some ⟨bytes, h⟩ else none

/-- The address with only zeros. -/
def zero : Address :=
  ⟨List.replicate 20 0, by simp⟩

/-- The address of a public point. -/
def ofPoint (point : Nat × Nat) : Address :=
  let digest := keccak256 (toBigEndian 32 point.1 ++ toBigEndian 32 point.2)
  (ofBytes? (digest.drop 12)).getD zero

/-- The address in lower-case digits. -/
def text (a : Address) : String :=
  "0x" ++ hexText a.bytes

/-- The address with a checksum: a letter is upper case where the digest of the lower-case digits has
a digit of at least eight. -/
def checksumText (a : Address) : String :=
  let digits := (hexText a.bytes).toList
  let digest := (hexText (keccak256 (utf8Bytes (String.ofList digits)))).toList
  let marked := digits.zip digest |>.map fun (c, d) =>
    if 8 ≤ (hexValue? d).getD 0 then c.toUpper else c
  "0x" ++ String.ofList marked

end Address

end ChainRelay
