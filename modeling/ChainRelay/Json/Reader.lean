import ChainRelay.Json.Fault
import ChainRelay.Text.Raw

/-! # Reading JSON values

A reader takes bytes from the front of a text and stops at the first fault. A document may open 127
containers inside each other. -/

namespace ChainRelay.Json

/-- Takes bytes from the front of a text, or fails. -/
abbrev Reader := StateT (List UInt8) (Except Fault)

namespace Reader

/-- Fail behind the last byte read. -/
def failHere (p : Problem) : Reader α :=
  fun rest => .error ⟨p, rest.length, []⟩

/-- Fail at the next byte. -/
def failAtNext (p : Problem) : Reader α :=
  fun rest => .error ⟨p, rest.length - 1, []⟩

/-- Read a part; its faults lie below `step`. -/
def below (step : Step) (r : Reader α) : Reader α :=
  fun rest =>
    match r rest with
    | .ok result => .ok result
    | .error f => .error (f.below step)

/-- The next byte. -/
def peek : Reader (Option UInt8) :=
  fun rest => .ok (rest.head?, rest)

/-- Leave out the next byte. -/
def advance : Reader Unit :=
  fun rest => .ok ((), rest.tail)

end Reader

open Reader

/-- Space, line feed, tab and carriage return separate JSON tokens. -/
def isJsonBlank (b : UInt8) : Bool :=
  b == 0x20 || b == 0x0A || b == 0x09 || b == 0x0D

/-- The first byte of the next token. -/
def nextToken : Reader (Option UInt8) :=
  fun rest =>
    let rest := rest.dropWhile isJsonBlank
    .ok (rest.head?, rest)

/-- The rest of a literal word. -/
def readWord : List UInt8 → Reader Unit
  | [] => pure ()
  | expected :: more => do
    match ← peek with
    | none => failHere .endInValue
    | some b =>
      advance
      if b = expected then readWord more else failHere .expectedWord

/-! ## Numbers -/

/-- A decimal digit. -/
def isDigit (b : UInt8) : Bool :=
  0x30 ≤ b && b ≤ 0x39

/-- The value of a decimal digit. -/
def digitValue (b : UInt8) : Nat :=
  b.toNat - 0x30

/-- The digits at the front of the text. -/
def readDigits : Reader (List Nat) :=
  fun rest => .ok ((rest.takeWhile isDigit).map digitValue, rest.dropWhile isDigit)

/-- Append digits as long as the number fits 64 bits; the second part counts those left out. -/
def absorb (significand : Nat) : List Nat → Nat × Nat
  | [] => (significand, 0)
  | d :: rest =>
    if significand * 10 + d < UInt64.size then absorb (significand * 10 + d) rest
    else (significand, rest.length + 1)

/-- The double nearest to `10 ^ n`. -/
def powerOfTen (n : Nat) : Float :=
  Float.ofScientific 1 false n

/-- `x * 10 ^ e` by one multiplication or division, after divisions by `1e308` for small exponents.
Nothing is returned for a number out of range. -/
def scaleByTen : (steps : Nat) → Float → Int → Option Float
  | 0, x, _ => some x
  | steps + 1, x, e =>
    if e.natAbs ≤ 308 then
      if 0 ≤ e then
        let y := x * powerOfTen e.natAbs
        if y.isInf then none else some y
      else some (x / powerOfTen e.natAbs)
    else if x == 0.0 then some x
    else if 0 ≤ e then none
    else scaleByTen steps (x / powerOfTen 308) (e + 308)

/-- The double of a significand and a decimal exponent. -/
def readFloat (negative : Bool) (significand : Nat) (exponent : Int) : Reader Number :=
  match scaleByTen 8 (UInt64.ofNat significand).toFloat exponent with
  | some x => pure (.float (if negative then -x else x))
  | none => failHere .numberOutOfRange

/-- The digits of an exponent, up to the last one with which it fits 32 bits. -/
def exponentValue (value : Nat) : List Nat → Option Nat
  | [] => some value
  | d :: rest => if value * 10 + d < 0x80000000 then exponentValue (value * 10 + d) rest else none

/-- How many of the digits of an exponent are read before it stops fitting 32 bits. -/
def exponentReach (value : Nat) : List Nat → Nat
  | [] => 0
  | d :: rest => if value * 10 + d < 0x80000000 then exponentReach (value * 10 + d) rest + 1 else 1

/-- The exponent of a number, after `e`. -/
def readExponent (negative : Bool) (significand : Nat) (start : Int) : Reader Number := do
  let down := (← peek) == some 0x2D
  if down || (← peek) == some 0x2B then advance
  match ← peek with
  | none => failHere .endInValue
  | some b =>
    if !isDigit b then
      advance
      failHere .invalidNumber
    else
      let before ← get
      let digits ← readDigits
      match exponentValue 0 digits with
      | some e => readFloat negative significand (if down then start - e else start + e)
      | none =>
        if significand ≠ 0 ∧ !down then
          set (before.drop (exponentReach 0 digits))
          failHere .numberOutOfRange
        else pure (.float (if negative then -0.0 else 0.0))

/-- The decimals of a number, after the point. -/
def readDecimals (negative : Bool) (significand : Nat) (start : Int) : Reader Number := do
  let digits ← readDigits
  if digits.isEmpty then
    match ← peek with
    | none => failAtNext .endInValue
    | some _ => failAtNext .invalidNumber
  else
    let (significand, dropped) := absorb significand digits
    let exponent : Int := start - (digits.length - dropped : Nat)
    match ← peek with
    | some b =>
      if b = 0x65 ∨ b = 0x45 then
        advance
        readExponent negative significand exponent
      else readFloat negative significand exponent
    | none => readFloat negative significand exponent

/-- A number with neither point nor exponent. -/
def wholeNumber (negative : Bool) (significand : Nat) : Number :=
  if negative then
    if h : 0 < significand ∧ significand ≤ 0x8000000000000000 then .int (-significand) (by omega)
    else .float (-(UInt64.ofNat significand).toFloat)
  else if h : significand < 0x10000000000000000 then .int significand (by omega)
  else .float (UInt64.ofNat significand).toFloat

/-- A number whose integer digits have been read. -/
def readAfterDigits (negative : Bool) (significand dropped : Nat) : Reader Number := do
  match ← peek with
  | some b =>
    if b = 0x2E then
      advance
      readDecimals negative significand dropped
    else if b = 0x65 ∨ b = 0x45 then
      advance
      readExponent negative significand dropped
    else if dropped = 0 then pure (wholeNumber negative significand)
    else readFloat negative significand dropped
  | none =>
    if dropped = 0 then pure (wholeNumber negative significand)
    else readFloat negative significand dropped

/-- A number, after its sign. -/
def readUnsigned (negative : Bool) : Reader Number := do
  match ← peek with
  | none => failHere .endInValue
  | some b =>
    if b = 0x30 then
      advance
      match ← peek with
      | some c => if isDigit c then failAtNext .invalidNumber else readAfterDigits negative 0 0
      | none => readAfterDigits negative 0 0
    else if isDigit b then
      let (significand, dropped) := absorb 0 (← readDigits)
      readAfterDigits negative significand dropped
    else
      advance
      failHere .invalidNumber

/-- The number whose first byte, a digit or a minus, is next. -/
def readNumber : Reader Number := do
  if (← peek) == some 0x2D then
    advance
    readUnsigned true
  else readUnsigned false

/-! ## Strings -/

/-- The value of four hexadecimal digits. -/
def hexQuad (a b c d : UInt8) : Option Nat := do
  let digit (x : UInt8) : Option Nat := hexValue? (Char.ofNat x.toNat)
  return (← digit a) * 4096 + (← digit b) * 256 + (← digit c) * 16 + (← digit d)

/-- Four hexadecimal digits. -/
def readQuad : List UInt8 → Except Fault (Nat × List UInt8)
  | a :: b :: c :: d :: rest =>
    match hexQuad a b c d with
    | some n => .ok (n, rest)
    | none => .error ⟨.invalidEscape, rest.length, []⟩
  | _ => .error ⟨.endInString, 0, []⟩

/-- The character of a surrogate pair, whose second half is read after its `\u`. -/
def readLowSurrogate (high : Nat) (bytes : List UInt8) : Except Fault (List UInt8 × List UInt8) :=
  match readQuad bytes with
  | .error f => .error f
  | .ok (low, rest) =>
    if 0xDC00 ≤ low ∧ low ≤ 0xDFFF then
      let code := (high - 0xD800) * 1024 + (low - 0xDC00) + 0x10000
      .ok (String.utf8EncodeChar (Char.ofNat code), rest)
    else .error ⟨.loneSurrogate, rest.length, []⟩

/-- The rest of a surrogate pair, after its first half. -/
def readSecondSurrogate (high : Nat) : List UInt8 → Except Fault (List UInt8 × List UInt8)
  | [] => .error ⟨.endInString, 0, []⟩
  | [x] => if x = 0x5C then .error ⟨.endInString, 0, []⟩ else .error ⟨.unfinishedSurrogate, 0, []⟩
  | x :: y :: rest =>
    if x ≠ 0x5C then .error ⟨.unfinishedSurrogate, rest.length + 1, []⟩
    else if y ≠ 0x75 then .error ⟨.unfinishedSurrogate, rest.length, []⟩
    else readLowSurrogate high rest

/-- The rest of a Unicode escape, after its `u`, and the bytes of its character. -/
def readUnicodeEscape (bytes : List UInt8) : Except Fault (List UInt8 × List UInt8) :=
  match readQuad bytes with
  | .error f => .error f
  | .ok (high, rest) =>
    if 0xDC00 ≤ high ∧ high ≤ 0xDFFF then .error ⟨.loneSurrogate, rest.length, []⟩
    else if high < 0xD800 ∨ 0xDBFF < high then
      .ok (String.utf8EncodeChar (Char.ofNat high), rest)
    else readSecondSurrogate high rest

/-- The bytes an escape stands for, after its backslash. -/
def readEscape : List UInt8 → Except Fault (List UInt8 × List UInt8)
  | [] => .error ⟨.endInString, 0, []⟩
  | b :: rest =>
    if b = 0x22 ∨ b = 0x5C ∨ b = 0x2F then .ok ([b], rest)
    else if b = 0x62 then .ok ([0x08], rest)
    else if b = 0x66 then .ok ([0x0C], rest)
    else if b = 0x6E then .ok ([0x0A], rest)
    else if b = 0x72 then .ok ([0x0D], rest)
    else if b = 0x74 then .ok ([0x09], rest)
    else if b = 0x75 then readUnicodeEscape rest
    else .error ⟨.invalidEscape, rest.length, []⟩

theorem length_readQuad {bytes rest : List UInt8} {n : Nat} (h : readQuad bytes = .ok (n, rest)) :
    rest.length < bytes.length := by
  unfold readQuad at h
  grind

theorem length_readLowSurrogate {high : Nat} {bytes out rest : List UInt8}
    (h : readLowSurrogate high bytes = .ok (out, rest)) : rest.length < bytes.length := by
  unfold readLowSurrogate at h
  grind [→ length_readQuad]

theorem length_readSecondSurrogate {high : Nat} {bytes out rest : List UInt8}
    (h : readSecondSurrogate high bytes = .ok (out, rest)) : rest.length < bytes.length := by
  unfold readSecondSurrogate at h
  grind [→ length_readLowSurrogate]

theorem length_readUnicodeEscape {bytes out rest : List UInt8}
    (h : readUnicodeEscape bytes = .ok (out, rest)) : rest.length < bytes.length := by
  unfold readUnicodeEscape at h
  grind [→ length_readQuad, → length_readSecondSurrogate]

/-- An escape takes bytes. -/
theorem length_readEscape {bytes out rest : List UInt8}
    (h : readEscape bytes = .ok (out, rest)) : rest.length < bytes.length := by
  unfold readEscape at h
  grind [→ length_readUnicodeEscape]

/-- The content of a string up to its closing quote; `done` holds the bytes before, last first. -/
def readContent (done : List UInt8) (bytes : List UInt8) :
    Except Fault (List UInt8 × List UInt8) :=
  match bytes with
  | [] => .error ⟨.endInString, 0, []⟩
  | b :: rest =>
    if b = 0x22 then .ok (done.reverse, rest)
    else if b = 0x5C then
      match _h : readEscape rest with
      | .ok (out, rest') => readContent (out.reverse ++ done) rest'
      | .error f => .error f
    else if b < 0x20 then .error ⟨.controlInString, rest.length, []⟩
    else readContent (b :: done) rest
termination_by bytes.length
decreasing_by
  · have := length_readEscape _h
    simp only [List.length_cons]; omega
  · simp

/-- The number of bytes before the first one that is part of no character. -/
def soundLength (bytes : List UInt8) : Nat :=
  (RawText.toBytes ((RawText.ofBytes bytes).takeWhile fun
    | .char _ => true
    | .byte _ => false)).length

/-- A string, after its opening quote; a fault of its encoding is reported behind the first byte that
is part of no character. -/
def readString : Reader String := do
  let start ← get
  let (bytes, rest) ← (readContent [] start : Except Fault _)
  set rest
  match String.fromUTF8? (ByteArray.mk bytes.toArray) with
  | some s => pure s
  | none => throw ⟨.invalidCodePoint, start.length - soundLength start - 1, []⟩

/-! ## Containers -/

/-- Whether an item follows; the comma before it is read. -/
def nextItem (first : Bool) : Reader Bool := do
  match ← nextToken with
  | none => failAtNext .endInList
  | some b =>
    if b = 0x5D then pure false
    else if first then pure true
    else if b = 0x2C then
      advance
      match ← nextToken with
      | none => failAtNext .endInValue
      | some c => if c = 0x5D then failAtNext .trailingComma else pure true
    else failAtNext .expectedListEnd

/-- The end of a list. -/
def closeList : Reader Unit := do
  match ← nextToken with
  | none => failAtNext .endInList
  | some b =>
    if b = 0x5D then advance
    else if b = 0x2C then
      advance
      if (← nextToken) == some 0x5D then failAtNext .trailingComma else failAtNext .trailingText
    else failAtNext .trailingText

/-- The name of the next member, if one follows; the comma before it is read. -/
def nextName (first : Bool) : Reader (Option String) :=
  below .unknown do
    match ← nextToken with
    | none => failAtNext .endInObject
    | some b =>
      if b = 0x7D then pure none
      else if first then
        if b = 0x22 then
          advance
          some <$> readString
        else failAtNext .nameNotString
      else if b = 0x2C then
        advance
        match ← nextToken with
        | none => failAtNext .endInValue
        | some c =>
          if c = 0x22 then
            advance
            some <$> readString
          else if c = 0x7D then failAtNext .trailingComma
          else failAtNext .nameNotString
      else failAtNext .expectedObjectEnd

/-- The colon after a member's name. -/
def readColon : Reader Unit := do
  match ← nextToken with
  | none => failAtNext .endInObject
  | some b => if b = 0x3A then advance else failAtNext .expectedColon

/-- The value of the member `name`. -/
def readMember (name : String) (value : Reader α) : Reader α := do
  readColon
  below (.key name) value

/-- The end of an object. -/
def closeObject : Reader Unit := do
  match ← nextToken with
  | none => failAtNext .endInObject
  | some b =>
    if b = 0x7D then advance
    else if b = 0x2C then failAtNext .trailingComma
    else failAtNext .trailingText

/-- The items of a list from the one at `index` on. -/
def readItems (item : Reader α) : (fuel : Nat) → (index : Nat) → Reader (List α)
  | 0, _ => failHere .endInList
  | fuel + 1, index => do
    if ← nextItem (index == 0) then
      let v ← below (.index index) item
      return v :: (← readItems item fuel (index + 1))
    else return []

/-- The members of an object, added to `found`. -/
def readMembers (value : Reader Value) :
    (fuel : Nat) → (first : Bool) → (found : Members) → Reader Members
  | 0, _, _ => failHere .endInObject
  | fuel + 1, first, found => do
    match ← nextName first with
    | none => return found
    | some name =>
      let v ← readMember name value
      readMembers value fuel false (found.insert name v)

/-- The number of bytes still to read, which bounds every loop over them. -/
def bound : Reader Nat :=
  fun rest => .ok (rest.length + 1, rest)

/-- A value that opens at most `room` containers inside each other. -/
def readValue (room : Nat) : Reader Value := do
  match ← nextToken with
  | none => failAtNext .endInValue
  | some b =>
    if b = 0x6E then
      advance
      readWord [0x75, 0x6C, 0x6C]
      return .null
    else if b = 0x74 then
      advance
      readWord [0x72, 0x75, 0x65]
      return .bool true
    else if b = 0x66 then
      advance
      readWord [0x61, 0x6C, 0x73, 0x65]
      return .bool false
    else if b = 0x2D ∨ isDigit b then return .number (← readNumber)
    else if b = 0x22 then
      advance
      return .string (← readString)
    else if b = 0x5B then
      match room with
      | 0 => failAtNext .tooDeep
      | room + 1 =>
        advance
        let items ← readItems (readValue room) (← bound) 0
        closeList
        return .array items
    else if b = 0x7B then
      match room with
      | 0 => failAtNext .tooDeep
      | room + 1 =>
        advance
        let members ← readMembers (readValue room) (← bound) true []
        closeObject
        return .object members
    else failAtNext .expectedValue

/-- How many containers a document may open inside each other. -/
def depthLimit : Nat := 127

/-- The end of a document. -/
def readEnd : Reader Unit := do
  match ← nextToken with
  | none => pure ()
  | some _ => failAtNext .trailingText

/-- Run a reader on a whole text and locate its fault. -/
def runReader (r : Reader α) (input : List UInt8) : Except Refusal α :=
  match r input with
  | .ok (a, _) => .ok a
  | .error f => .error (f.locate input)

/-- The value of a text that holds one document and nothing else. -/
def Value.parse (input : List UInt8) : Except Refusal Value :=
  runReader (do
    let v ← readValue depthLimit
    readEnd
    return v) input

end ChainRelay.Json
