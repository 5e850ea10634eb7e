import ChainRelay.Decimal.Shortest

/-! # JSON numbers

A number is a whole number between `-2 ^ 63` and `2 ^ 64 - 1`, or a finite double. -/

namespace ChainRelay.Json

/-- A JSON number. -/
inductive Number where
  /-- A whole number that fits 64 bits, signed or unsigned. -/
  | int (n : Int) (fits : -0x8000000000000000 ≤ n ∧ n < 0x10000000000000000)
  /-- Any other number. -/
  | float (x : Float)

namespace Number

/-- An unsigned word as a number. -/
def ofUInt64 (n : UInt64) : Number :=
  .int n.toNat (by have := n.toNat_lt; omega)

/-- Which decimal exponents are written with a point and no exponent. -/
structure FloatLayout where
  /-- The least power of ten that is written positionally. -/
  least : Int
  /-- The first power of ten that is written with an exponent. -/
  bound : Int

/-- Doubles from `1e-5` up to below `1e16` are written positionally. -/
def floatLayout : FloatLayout :=
  ⟨-5, 16⟩

/-- The text of a finite double: the fewest digits that read back, always with a point or an
exponent, whose sign is always written. -/
def floatText (x : Float) : String :=
  let sign := if 0x8000000000000000 ≤ x.toBits.toNat then "-" else ""
  let d := Decimal.shortest (Decimal.Binary.ofBits x.toBits)
  let digits := Nat.repr d.digits
  let point : Int := digits.length + d.exponent
  let power := point - 1
  let zeros (n : Int) : String := String.ofList (List.replicate n.toNat '0')
  sign ++
    if d.digits = 0 then "0.0"
    else if floatLayout.least ≤ power && power < floatLayout.bound then
      if 0 ≤ d.exponent then digits ++ zeros d.exponent ++ ".0"
      else if 0 < point then
        String.ofList (digits.toList.take point.toNat) ++ "." ++
          String.ofList (digits.toList.drop point.toNat)
      else "0." ++ zeros (-point) ++ digits
    else
      let fraction := digits.toList.drop 1
      let mantissa :=
        String.ofList (digits.toList.take 1) ++
          (if fraction.isEmpty then "" else "." ++ String.ofList fraction)
      let exponent := if power < 0 then "-" ++ Nat.repr power.natAbs else "+" ++ Nat.repr power.natAbs
      mantissa ++ "e" ++ exponent

/-- The text of a whole number. -/
def intText (n : Int) : String :=
  if n < 0 then "-" ++ Nat.repr n.natAbs else Nat.repr n.natAbs

/-- The JSON text of a number. -/
def text : Number → String
  | .int n _ => intText n
  | .float x => floatText x

end Number

end ChainRelay.Json
