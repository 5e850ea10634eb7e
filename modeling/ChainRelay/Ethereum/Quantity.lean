import ChainRelay.Text.Hex

/-! # Quantities

A node writes a number as `0x` and hexadecimal digits. -/

namespace ChainRelay.Ethereum

/-- Why digits write no word of 64 bits. -/
inductive DigitsError where
  | empty
  | badDigit
  | tooLarge
  deriving DecidableEq, Repr

/-- The wording of a refusal. -/
def DigitsError.message : DigitsError → String
  | .empty => "cannot parse integer from empty string"
  | .badDigit => "invalid digit found in string"
  | .tooLarge => "number too large to fit in target type"

/-- The number that digits write after those of `value`, below `2 ^ 64`. -/
def readHexDigits (value : Nat) : List Char → Except DigitsError Nat
  | [] => .ok value
  | c :: rest =>
    match hexValue? c with
    | none => .error .badDigit
    | some d =>
      let next := value * 16 + d
      if next < UInt64.size then readHexDigits next rest else .error .tooLarge

/-- The word that hexadecimal digits write; a plus may stand before them. -/
def readHexWord (cs : List Char) : Except DigitsError Nat :=
  match cs with
  | [] => .error .empty
  | ['+'] => .error .badDigit
  | '+' :: rest => readHexDigits 0 rest
  | _ => readHexDigits 0 cs

/-- Why a text is no quantity. -/
inductive QuantityError where
  | noMark
  | digits (e : DigitsError)
  deriving DecidableEq, Repr

/-- The wording of a refusal. -/
def QuantityError.message (text : String) : QuantityError → String
  | .noMark => "quantity `" ++ text ++ "` is not 0x prefixed"
  | .digits e => "quantity `" ++ text ++ "`: " ++ e.message

/-- The word that a quantity writes. -/
def readQuantity (s : String) : Except QuantityError UInt64 :=
  match s.toList with
  | '0' :: 'x' :: digits =>
    match readHexWord digits with
    | .ok n => .ok (UInt64.ofNat n)
    | .error e => .error (.digits e)
  | _ => .error .noMark

end ChainRelay.Ethereum
