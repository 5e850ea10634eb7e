/-! # The shortest decimal that reads back

A finite double is `m * 2 ^ q`. Among the decimals that round to it, the one with the fewest digits
is taken, of two such the nearer one, and of two equally near the even one. -/

namespace ChainRelay.Decimal

/-- A binary number `mantissa * 2 ^ exponent`, with the gap to its lower neighbour half as wide as
the one to its upper neighbour when `narrow`. -/
structure Binary where
  mantissa : Nat
  exponent : Int
  narrow : Bool

/-- A decimal number `digits * 10 ^ exponent`. -/
structure Digits where
  digits : Nat
  exponent : Int
  deriving Repr, DecidableEq

/-- The magnitude of a finite double. -/
def Binary.ofBits (bits : UInt64) : Binary :=
  let field : Nat := (bits.toNat / 0x10000000000000) % 2048
  let fraction : Nat := bits.toNat % 0x10000000000000
  if field = 0 then { mantissa := fraction, exponent := -1074, narrow := false }
  else
    { mantissa := fraction + 0x10000000000000, exponent := (field : Int) - 1075,
      narrow := fraction == 0 && field > 1 }

/-- The comparison of `a * 10 ^ e` with `b * 2 ^ q`, both sides made whole numbers. -/
def scaled (a : Nat) (e : Int) (b : Nat) (q : Int) : Nat × Nat :=
  (a * Nat.pow 10 e.toNat * Nat.pow 2 (-q).toNat, b * Nat.pow 2 q.toNat * Nat.pow 10 (-e).toNat)

/-- The decimal `d * 10 ^ e` rounds to `x`: it lies within half a gap, ends included for an even
mantissa. -/
def roundsTo (x : Binary) (d : Nat) (e : Int) : Bool :=
  let quarter := x.exponent - 2
  let (low, lowEnd) := scaled d e (4 * x.mantissa - (if x.narrow then 1 else 2)) quarter
  let (high, highEnd) := scaled d e (4 * x.mantissa + 2) quarter
  if x.mantissa % 2 = 0 then lowEnd ≤ low && high ≤ highEnd else lowEnd < low && high < highEnd

/-- The nearer of `d` and `d + 1` on the grid of `10 ^ e`, the even one if they are equally near. -/
def nearer (x : Binary) (d : Nat) (e : Int) : Nat :=
  let (twice, value) := scaled (2 * d + 1) e (2 * x.mantissa) x.exponent
  if value < twice then d
  else if twice < value then d + 1
  else if d % 2 = 0 then d else d + 1

/-- The decimal on the grid of `10 ^ e` that rounds to `x`, if there is one. -/
def onGrid? (x : Binary) (e : Int) : Option Digits :=
  let (whole, value) := scaled 1 e x.mantissa x.exponent
  let d := value / whole
  match roundsTo x d e, roundsTo x (d + 1) e with
  | true, true => some ⟨nearer x d e, e⟩
  | true, false => some ⟨d, e⟩
  | false, true => some ⟨d + 1, e⟩
  | false, false => none

/-- The least `k` with `x < 10 ^ k`, searched upwards from `k`. -/
def magnitudeFrom (x : Binary) : (steps : Nat) → (k : Int) → Int
  | 0, k => k
  | steps + 1, k =>
    let (power, value) := scaled 1 k x.mantissa x.exponent
    if value < power then k else magnitudeFrom x steps (k + 1)

/-- Drop zeros at the right end. -/
def stripZeros : (steps : Nat) → Digits → Digits
  | 0, x => x
  | steps + 1, x =>
    if x.digits ≠ 0 ∧ x.digits % 10 = 0 then
      stripZeros steps ⟨x.digits / 10, x.exponent + 1⟩
    else x

/-- The first hit on the grids of 1, 2, … digits, below `10 ^ k`. -/
def firstHit (x : Binary) (k : Int) : (tries : Nat) → (count : Nat) → Digits
  | 0, _ => ⟨0, 0⟩
  | tries + 1, count =>
    match onGrid? x (k - count) with
    | some d => stripZeros 20 d
    | none => firstHit x k tries (count + 1)

/-- A number not above the `k` with `10 ^ (k - 1) ≤ x < 10 ^ k`, and at most three below it: the
position of the highest bit times the logarithm of 2, rounded down, less one. -/
def magnitudeGuess (x : Binary) : Int :=
  ((x.mantissa.log2 : Int) + x.exponent) * 30103 / 100000 - 1

/-- The shortest decimal that rounds to `x`. -/
def shortest (x : Binary) : Digits :=
  if x.mantissa = 0 then ⟨0, 0⟩ else firstHit x (magnitudeFrom x 4 (magnitudeGuess x)) 18 1

end ChainRelay.Decimal
