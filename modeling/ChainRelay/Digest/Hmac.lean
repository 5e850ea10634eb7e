import ChainRelay.Digest.Sha2

/-! # Keyed digests

HMAC over a digest, and the derivation of keys from passwords that iterates it. -/

namespace ChainRelay.Digest

/-- A digest with the number of bytes in its blocks. -/
structure Hash where
  blockSize : Nat
  digest : List UInt8 → List UInt8

/-- SHA-256 with its block size. -/
def Hash.sha256 : Hash :=
  ⟨64, Digest.sha256⟩

/-- SHA-512 with its block size. -/
def Hash.sha512 : Hash :=
  ⟨128, Digest.sha512⟩

namespace Hash

/-- The key filled up to a block; a longer one is digested first. -/
def keyBlock (h : Hash) (key : List UInt8) : List UInt8 :=
  let short := if h.blockSize < key.length then h.digest key else key
  short ++ List.replicate (h.blockSize - short.length) 0

/-- HMAC. -/
def hmac (h : Hash) (key message : List UInt8) : List UInt8 :=
  let block := h.keyBlock key
  let inner := h.digest (block.map (· ^^^ 0x36) ++ message)
  h.digest (block.map (· ^^^ 0x5C) ++ inner)

/-- Add up `rounds` further links of a chain of keyed digests. -/
def chainOf (h : Hash) (key : List UInt8) : (rounds : Nat) → (link sum : List UInt8) → List UInt8
  | 0, _, sum => sum
  | rounds + 1, link, sum =>
    let link := h.hmac key link
    chainOf h key rounds link (sum.zipWith (· ^^^ ·) link)

/-- The first block of the key derived from a password by PBKDF2. -/
def derive (h : Hash) (password salt : List UInt8) (rounds : Nat) : List UInt8 :=
  let first := h.hmac password (salt ++ toBigEndian 4 1)
  h.chainOf password (rounds - 1) first first

end Hash

end ChainRelay.Digest
