import ChainRelay.Digest.Sha2

/-! # Keccak-256

The sponge with a rate of 136 bytes. A message is padded with one byte 1, zeros, and the top bit of
the last byte. The state has five rows of five lanes; lane `x` of row `y` is at `5 * y + x`. -/

namespace ChainRelay.Digest

/-- One constant per round. -/
def keccakConstants : List UInt64 :=
  [
    0x0000000000000001, 0x0000000000008082, 0x800000000000808a, 0x8000000080008000,
    0x000000000000808b, 0x0000000080000001, 0x8000000080008081, 0x8000000000008009,
    0x000000000000008a, 0x0000000000000088, 0x0000000080008009, 0x000000008000000a,
    0x000000008000808b, 0x800000000000008b, 0x8000000000008089, 0x8000000000008003,
    0x8000000000008002, 0x8000000000000080, 0x000000000000800a, 0x800000008000000a,
    0x8000000080008081, 0x8000000000008080, 0x0000000080000001, 0x8000000080008008 ]

/-- How far each lane is rotated, in the order of the lanes. -/
def keccakRotations : List UInt64 :=
  [0, 1, 62, 28, 27, 36, 44, 6, 55, 20, 3, 10, 43, 25, 39, 41, 45, 15, 21, 8, 18, 2, 61, 56, 14]

/-- Rotate left. -/
def rotateLeft (x : UInt64) (n : UInt64) : UInt64 :=
  if n = 0 then x else x <<< n ||| x >>> (64 - n)

/-- A lane of the state. -/
def lane (state : Array UInt64) (n : Nat) : UInt64 :=
  state.getD n 0

/-- Add to every lane the parity of two columns beside it. -/
def theta (state : Array UInt64) : Array UInt64 :=
  let parity (x : Nat) : UInt64 :=
    lane state x ^^^ lane state (x + 5) ^^^ lane state (x + 10) ^^^ lane state (x + 15) ^^^
      lane state (x + 20)
  let columns := ((List.range 5).map parity).toArray
  let effect (x : Nat) : UInt64 :=
    lane columns ((x + 4) % 5) ^^^ rotateLeft (lane columns ((x + 1) % 5)) 1
  let effects := ((List.range 5).map effect).toArray
  ((List.range 25).map fun n => lane state n ^^^ lane effects (n % 5)).toArray

/-- Rotate every lane and move it to its new place. -/
def rhoPi (state : Array UInt64) : Array UInt64 :=
  let rotated := ((List.range 25).map fun n =>
    rotateLeft (lane state n) (keccakRotations.getD n 0)).toArray
  -- the lane that comes to (x, y) was at (x + 3 y, x)
  ((List.range 25).map fun n =>
    let x := n % 5
    let y := n / 5
    lane rotated (5 * x + (x + 3 * y) % 5)).toArray

/-- Combine every lane with the two after it in its row. -/
def chi (state : Array UInt64) : Array UInt64 :=
  ((List.range 25).map fun n =>
    let row := 5 * (n / 5)
    let x := n % 5
    lane state n ^^^ (~~~lane state (row + (x + 1) % 5) &&& lane state (row + (x + 2) % 5))).toArray

/-- All rounds. -/
def permute (state : Array UInt64) : Array UInt64 :=
  keccakConstants.foldl (fun s k =>
    let s := chi (rhoPi (theta s))
    s.setIfInBounds 0 (lane s 0 ^^^ k)) state

/-- The rate of Keccak-256 in bytes. -/
def keccakRate : Nat := 136

/-- The lane of little-endian bytes. -/
def laneOf (bytes : List UInt8) : UInt64 :=
  bytes.reverse.foldl (fun w b => (w <<< 8) ||| b.toUInt64) 0

/-- The little-endian bytes of a lane. -/
def laneBytes (w : UInt64) : List UInt8 :=
  (Word.toBytes w).reverse

/-- A message filled up to a whole number of blocks. -/
def keccakPadded (message : List UInt8) : List UInt8 :=
  let missing := keccakRate - message.length % keccakRate
  message ++
    if missing = 1 then [0x81] else 1 :: List.replicate (missing - 2) 0 ++ [0x80]

/-- Mix blocks into the state. -/
def keccakAbsorb : (fuel : Nat) → Array UInt64 → List UInt8 → Array UInt64
  | 0, state, _ => state
  | fuel + 1, state, bytes =>
    if bytes.isEmpty then state
    else
      let word (n : Nat) : UInt64 :=
        if 8 * n < keccakRate then laneOf ((bytes.drop (8 * n)).take 8) else 0
      let mixed := ((List.range 25).map fun n => lane state n ^^^ word n).toArray
      keccakAbsorb fuel (permute mixed) (bytes.drop keccakRate)

/-- Keccak-256. -/
def keccak256 (message : List UInt8) : List UInt8 :=
  let padded := keccakPadded message
  let state := keccakAbsorb padded.length (Array.replicate 25 0) padded
  ((state.toList.take 4).flatMap laneBytes)

end ChainRelay.Digest
