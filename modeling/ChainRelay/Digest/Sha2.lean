/-! # The SHA-2 family

SHA-256 and SHA-512 are one construction over words of 32 and 64 bits. The message is padded to
blocks of sixteen words; each block is expanded to one word per round and mixed into a state of
eight words. -/

namespace ChainRelay.Digest

/-- The fractional parts of the cube roots of the first eighty primes, as 64-bit words. -/
def cubeRoots : List UInt64 :=
  [
    0x428a2f98d728ae22, 0x7137449123ef65cd, 0xb5c0fbcfec4d3b2f, 0xe9b5dba58189dbbc,
    0x3956c25bf348b538, 0x59f111f1b605d019, 0x923f82a4af194f9b, 0xab1c5ed5da6d8118,
    0xd807aa98a3030242, 0x12835b0145706fbe, 0x243185be4ee4b28c, 0x550c7dc3d5ffb4e2,
    0x72be5d74f27b896f, 0x80deb1fe3b1696b1, 0x9bdc06a725c71235, 0xc19bf174cf692694,
    0xe49b69c19ef14ad2, 0xefbe4786384f25e3, 0x0fc19dc68b8cd5b5, 0x240ca1cc77ac9c65,
    0x2de92c6f592b0275, 0x4a7484aa6ea6e483, 0x5cb0a9dcbd41fbd4, 0x76f988da831153b5,
    0x983e5152ee66dfab, 0xa831c66d2db43210, 0xb00327c898fb213f, 0xbf597fc7beef0ee4,
    0xc6e00bf33da88fc2, 0xd5a79147930aa725, 0x06ca6351e003826f, 0x142929670a0e6e70,
    0x27b70a8546d22ffc, 0x2e1b21385c26c926, 0x4d2c6dfc5ac42aed, 0x53380d139d95b3df,
    0x650a73548baf63de, 0x766a0abb3c77b2a8, 0x81c2c92e47edaee6, 0x92722c851482353b,
    0xa2bfe8a14cf10364, 0xa81a664bbc423001, 0xc24b8b70d0f89791, 0xc76c51a30654be30,
    0xd192e819d6ef5218, 0xd69906245565a910, 0xf40e35855771202a, 0x106aa07032bbd1b8,
    0x19a4c116b8d2d0c8, 0x1e376c085141ab53, 0x2748774cdf8eeb99, 0x34b0bcb5e19b48a8,
    0x391c0cb3c5c95a63, 0x4ed8aa4ae3418acb, 0x5b9cca4f7763e373, 0x682e6ff3d6b2b8a3,
    0x748f82ee5defb2fc, 0x78a5636f43172f60, 0x84c87814a1f0ab72, 0x8cc702081a6439ec,
    0x90befffa23631e28, 0xa4506cebde82bde9, 0xbef9a3f7b2c67915, 0xc67178f2e372532b,
    0xca273eceea26619c, 0xd186b8c721c0c207, 0xeada7dd6cde0eb1e, 0xf57d4f7fee6ed178,
    0x06f067aa72176fba, 0x0a637dc5a2c898a6, 0x113f9804bef90dae, 0x1b710b35131c471b,
    0x28db77f523047d84, 0x32caab7b40c72493, 0x3c9ebe0a15c9bebc, 0x431d67c49c100d4c,
    0x4cc5d4becb3e42b6, 0x597f299cfc657e2a, 0x5fcb6fab3ad6faec, 0x6c44198c4a475817 ]

/-- The fractional parts of the square roots of the first eight primes, as 64-bit words. -/
def squareRoots : List UInt64 :=
  [
    0x6a09e667f3bcc908, 0xbb67ae8584caa73b, 0x3c6ef372fe94f82b, 0xa54ff53a5f1d36f1,
    0x510e527fade682d1, 0x9b05688c2b3e6c1f, 0x1f83d9abfb41bd6b, 0x5be0cd19137e2179 ]

/-- The words of one member of the family. -/
class Word (W : Type) extends Add W, XorOp W, AndOp W, Complement W where
  zero : W
  /-- The number of bytes in a word. -/
  size : Nat
  /-- The word of big-endian bytes. -/
  ofBytes : List UInt8 → W
  /-- The big-endian bytes of a word. -/
  toBytes : W → List UInt8
  /-- The two mixing functions of a round. -/
  bigZero : W → W
  bigOne : W → W
  /-- The two mixing functions of the expansion. -/
  smallZero : W → W
  smallOne : W → W
  /-- One constant per round. -/
  roundConstants : List W
  /-- The state before the first block. -/
  start : List W

/-- Rotate right. -/
def rotate32 (x : UInt32) (n : UInt32) : UInt32 :=
  x >>> n ||| x <<< (32 - n)

/-- Rotate right. -/
def rotate64 (x : UInt64) (n : UInt64) : UInt64 :=
  x >>> n ||| x <<< (64 - n)

/-- The upper half of a word. -/
def upperHalf (x : UInt64) : UInt32 :=
  (x >>> 32).toUInt32

/-- The number of big-endian bytes. -/
def bigEndian (bytes : List UInt8) : Nat :=
  bytes.foldl (fun n b => n * 256 + b.toNat) 0

/-- The last `size` big-endian bytes of a number. -/
def toBigEndian : (size : Nat) → Nat → List UInt8
  | 0, _ => []
  | size + 1, n => toBigEndian size (n / 256) ++ [UInt8.ofNat (n % 256)]

instance : Word UInt32 where
  zero := 0
  size := 4
  ofBytes := fun bytes => bytes.foldl (fun w b => (w <<< 8) ||| b.toUInt32) 0
  toBytes := fun w => [(w >>> 24).toUInt8, (w >>> 16).toUInt8, (w >>> 8).toUInt8, w.toUInt8]
  bigZero := fun x => rotate32 x 2 ^^^ rotate32 x 13 ^^^ rotate32 x 22
  bigOne := fun x => rotate32 x 6 ^^^ rotate32 x 11 ^^^ rotate32 x 25
  smallZero := fun x => rotate32 x 7 ^^^ rotate32 x 18 ^^^ x >>> 3
  smallOne := fun x => rotate32 x 17 ^^^ rotate32 x 19 ^^^ x >>> 10
  roundConstants := (cubeRoots.take 64).map upperHalf
  start := squareRoots.map upperHalf

instance : Word UInt64 where
  zero := 0
  size := 8
  ofBytes := fun bytes => bytes.foldl (fun w b => (w <<< 8) ||| b.toUInt64) 0
  toBytes := fun w =>
    [(w >>> 56).toUInt8, (w >>> 48).toUInt8, (w >>> 40).toUInt8, (w >>> 32).toUInt8,
      (w >>> 24).toUInt8, (w >>> 16).toUInt8, (w >>> 8).toUInt8, w.toUInt8]
  bigZero := fun x => rotate64 x 28 ^^^ rotate64 x 34 ^^^ rotate64 x 39
  bigOne := fun x => rotate64 x 14 ^^^ rotate64 x 18 ^^^ rotate64 x 41
  smallZero := fun x => rotate64 x 1 ^^^ rotate64 x 8 ^^^ x >>> 7
  smallOne := fun x => rotate64 x 19 ^^^ rotate64 x 61 ^^^ x >>> 6
  roundConstants := cubeRoots
  start := squareRoots

/-- The state between rounds. -/
structure Registers (W : Type) where
  a : W
  b : W
  c : W
  d : W
  e : W
  f : W
  g : W
  h : W

section

variable {W : Type} [Word W]

/-- The registers of a list of eight words. -/
@[specialize] def Registers.ofList (ws : List W) : Registers W :=
  let at? (n : Nat) : W := ws.getD n Word.zero
  ⟨at? 0, at? 1, at? 2, at? 3, at? 4, at? 5, at? 6, at? 7⟩

/-- The words of the registers. -/
@[specialize] def Registers.toList (r : Registers W) : List W :=
  [r.a, r.b, r.c, r.d, r.e, r.f, r.g, r.h]

/-- One round. -/
@[specialize] def round (r : Registers W) (constant word : W) : Registers W :=
  let choice := (r.e &&& r.f) ^^^ (~~~r.e &&& r.g)
  let majority := (r.a &&& r.b) ^^^ (r.a &&& r.c) ^^^ (r.b &&& r.c)
  let first := r.h + Word.bigOne r.e + choice + constant + word
  let second := Word.bigZero r.a + majority
  ⟨first + second, r.a, r.b, r.c, r.d + first, r.e, r.f, r.g⟩

/-- The words of a block and `more` further ones, each made of four earlier ones. -/
@[specialize] def expand : (more : Nat) → Array W → Array W
  | 0, ws => ws
  | more + 1, ws =>
    let back (n : Nat) : W := ws.getD (ws.size - n) Word.zero
    let next := Word.smallOne (back 2) + back 7 + Word.smallZero (back 15) + back 16
    expand more (ws.push next)

/-- Mix a block of words into the state. -/
@[specialize] def compress (state : List W) (block : Array W) : List W :=
  let constants := Word.roundConstants (W := W)
  let words := (expand (constants.length - 16) block).toList
  let mixed := (constants.zip words).foldl (fun r (k, w) => round r k w) (Registers.ofList state)
  state.zipWith (· + ·) mixed.toList

/-- The bytes that end a message: a one bit, zeros, and the number of bits. -/
@[specialize] def padding (size length : Nat) : List UInt8 :=
  let block := 16 * size
  let zeros := (2 * block - 1 - 2 * size - length % block) % block
  0x80 :: List.replicate zeros 0 ++ toBigEndian (2 * size) (8 * length)

/-- The words of bytes, of which there is a whole number. -/
@[specialize] def wordsOf : (fuel : Nat) → List UInt8 → List W
  | 0, _ => []
  | fuel + 1, bytes =>
    if bytes.isEmpty then []
    else
      let size := Word.size W
      Word.ofBytes (bytes.take size) :: wordsOf fuel (bytes.drop size)

/-- Mix words into the state, block by block. -/
@[specialize] def absorb : (fuel : Nat) → List W → List W → List W
  | 0, state, _ => state
  | fuel + 1, state, words =>
    if words.isEmpty then state
    else absorb fuel (compress state (words.take 16).toArray) (words.drop 16)

/-- The digest of a message, as long as the state. -/
@[specialize] def sha2 (message : List UInt8) : List UInt8 :=
  let padded := message ++ padding (Word.size W) message.length
  let words : List W := wordsOf padded.length padded
  (absorb words.length Word.start words).flatMap Word.toBytes

end

/-- SHA-256. -/
def sha256 (message : List UInt8) : List UInt8 :=
  sha2 (W := UInt32) message

/-- SHA-512. -/
def sha512 (message : List UInt8) : List UInt8 :=
  sha2 (W := UInt64) message

end ChainRelay.Digest
