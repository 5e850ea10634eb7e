import ChainRelay.Wallet.Address

/-! # Reading addresses

An address is written as forty hexadecimal digits, perhaps after the mark `0x` or `0X`, or as a list
of twenty numbers. -/

namespace ChainRelay

open Json Json.Reader

/-- Why a text is no address. -/
inductive AddressFault where
  | oddDigits
  | wrongLength
  /-- A byte that is no digit. -/
  | badDigit (byte : UInt8) (position : Nat)
  deriving DecidableEq, Repr

/-- The wording of a refusal. -/
def AddressFault.message : AddressFault → String
  | .oddDigits => "odd number of digits"
  | .wrongLength => "invalid string length"
  | .badDigit byte position =>
    "invalid character " ++ quoteChar (Char.ofNat byte.toNat) ++ " at position " ++ Nat.repr position

namespace Address

/-- The bytes of a text without the mark of base sixteen, whose letter may be small or capital. -/
def dropMark (bytes : List UInt8) : List UInt8 :=
  match bytes with
  | 0x30 :: 0x78 :: rest => rest
  | 0x30 :: 0x58 :: rest => rest
  | _ => bytes

/-- The value of a digit. -/
def digit? (b : UInt8) : Option Nat :=
  hexValue? (Char.ofNat b.toNat)

/-- The address that a text writes. -/
def ofText (s : String) : Except AddressFault Address :=
  let digits := dropMark (utf8Bytes s)
  if digits.length % 2 = 1 then .error .oddDigits
  else if digits.length ≠ 2 * size then .error .wrongLength
  else
    match digits.zipIdx.find? fun (b, _) => (digit? b).isNone with
    | some (b, n) => .error (.badDigit b n)
    | none =>
      match (ofHexChars? (digits.map fun b => Char.ofNat b.toNat)).bind ofBytes? with
      | some a => .ok a
      | none => .error .wrongLength

/-- What an address may be written as. -/
def expected : String :=
  "20 bytes, represented as a hex string of length 40, an array of u8, or raw bytes"

/-- The next byte of a list, if there is one. -/
def readByte? (index : Nat) : Reader (Option UInt8) := do
  if ← nextItem (index == 0) then
    let n ← below (.index index) (readUnsignedBelow "u8" 256)
    return some (UInt8.ofNat n)
  else return none

/-- The bytes of a list from `index` on, of which `missing` are needed. -/
def readBytes : (missing index : Nat) → Reader (List UInt8)
  | 0, _ => return []
  | missing + 1, index => do
    match ← readByte? index with
    | some b =>
      let rest ← readBytes missing (index + 1)
      return b :: rest
    | none => failAfterList (.wrongLength index "exactly 20 bytes")

/-- Pass over one more item, as far as it can be read as a byte; a byte would be too much. -/
def readSurplus : Reader Unit := fun bytes =>
  match readByte? size bytes with
  | .ok (none, rest) => .ok ((), rest)
  | .ok (some _, rest) => failAfterList (.wrongLength (size + 1) "exactly 20 bytes") rest
  | .error f =>
    let rest := bytes.drop (bytes.length - f.left)
    match closeList rest with
    | .ok ((), _) => .ok ((), rest)
    | .error g => .error { g with path := f.path }

/-- An address. -/
def read (room : Nat) : Reader Address := do
  let b ← firstOfValue
  if b = 0x22 then
    advance
    match ofText (← readString) with
    | .ok a => return a
    | .error e => failHere (.refused e.message)
  else if b = 0x5B then
    if room = 0 then failAtNext .tooDeep
    else
      advance
      let bytes ← readBytes size 0
      readSurplus
      closeList
      match ofBytes? bytes with
      | some a => return a
      | none => failHere (.wrongLength bytes.length "exactly 20 bytes")
  else if b = 0x7B then
    if room = 0 then failAtNext .tooDeep
    else
      advance
      failAfterObject (.wrongType .object expected)
  else failOnNext expected

end Address

end ChainRelay
