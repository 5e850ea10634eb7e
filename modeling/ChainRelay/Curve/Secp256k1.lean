/-! # The curve secp256k1

The points with `y ^ 2 = x ^ 3 + 7` over a prime field form a cyclic group. Points are computed with
in projective form, where `(x, y, z)` stands for `(x / z ^ 2, y / z ^ 3)` and `z = 0` for the neutral
point. -/

namespace ChainRelay.Curve

/-- The prime of the field. -/
def fieldPrime : Nat := Nat.pow 2 256 - Nat.pow 2 32 - 977

/-- The order of the group. -/
def groupOrder : Nat :=
  0xFFFFFFFFFFFFFFFFFFFFFFFFFFFFFFFEBAAEDCE6AF48A03BBFD25E8CD0364141

/-- The lowest 256 bits of a number, the highest first. -/
def bits (n : Nat) : List Bool :=
  ((List.range 256).map n.testBit).reverse

/-- A power modulo `m`. -/
def power (m base exponent : Nat) : Nat :=
  (bits exponent).foldl (fun acc bit =>
    let square := acc * acc % m
    if bit then square * base % m else square) 1

/-- The inverse modulo a prime. -/
def inverse (prime n : Nat) : Nat :=
  power prime n (prime - 2)

/-- A product in the field. -/
def times (a b : Nat) : Nat :=
  a * b % fieldPrime

/-- A difference in the field. -/
def minus (a b : Nat) : Nat :=
  (a + (fieldPrime - b % fieldPrime)) % fieldPrime

/-- A point in projective form. -/
structure Point where
  x : Nat
  y : Nat
  z : Nat
  deriving Repr

namespace Point

/-- The neutral point. -/
def zero : Point :=
  ⟨1, 1, 0⟩

/-- The generator of the group. -/
def generator : Point :=
  ⟨0x79BE667EF9DCBBAC55A06295CE870B07029BFCDB2DCE28D959F2815B16F81798,
    0x483ADA7726A3C4655DA4FBFC0E1108A8FD17B448A68554199C47D08FFB10D4B8, 1⟩

/-- Twice a point. -/
def double (p : Point) : Point :=
  if p.z = 0 || p.y = 0 then zero
  else
    let yy := times p.y p.y
    let s := times 4 (times p.x yy)
    let m := times 3 (times p.x p.x)
    let x := minus (times m m) (2 * s)
    let y := minus (times m (minus s x)) (times 8 (times yy yy))
    ⟨x, y, times 2 (times p.y p.z)⟩

/-- The sum of two points. -/
def add (p q : Point) : Point :=
  if p.z = 0 then q
  else if q.z = 0 then p
  else
    let pzz := times p.z p.z
    let qzz := times q.z q.z
    let px := times p.x qzz
    let qx := times q.x pzz
    let py := times p.y (times qzz q.z)
    let qy := times q.y (times pzz p.z)
    if px = qx then (if py = qy then double p else zero)
    else
      let h := minus qx px
      let r := minus qy py
      let hh := times h h
      let hhh := times hh h
      let v := times px hh
      let x := minus (minus (times r r) hhh) (2 * v)
      let y := minus (times r (minus v x)) (times py hhh)
      ⟨x, y, times h (times p.z q.z)⟩

/-- A multiple of a point. -/
def scale (n : Nat) (p : Point) : Point :=
  (bits n).foldl (fun acc bit =>
    let twice := double acc
    if bit then add twice p else twice) zero

/-- The coordinates of a point other than the neutral one. -/
def coordinates (p : Point) : Nat × Nat :=
  let zi := inverse fieldPrime p.z
  let zzi := times zi zi
  (times p.x zzi, times p.y (times zzi zi))

end Point

/-- The public point of a secret key. -/
def publicPoint (secret : Nat) : Nat × Nat :=
  (Point.scale secret .generator).coordinates

end ChainRelay.Curve
