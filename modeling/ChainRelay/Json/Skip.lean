import ChainRelay.Json.Reader

/-! # Leaving out a value

A value nobody asks for is checked for its outer form only: its numbers may be out of range, its
strings hold any bytes and unpaired surrogates, and it may be nested to any depth. -/

namespace ChainRelay.Json

open Reader

/-- A container that is open while a value is left out. -/
inductive Frame where
  | list
  | object
  deriving DecidableEq

/-- Leave out the digits of an exponent, after `e`. -/
def skipExponent : Reader Unit := do
  let sign ← peek
  if sign == some 0x2B || sign == some 0x2D then advance
  match ← peek with
  | none => failHere .invalidNumber
  | some b =>
    advance
    if isDigit b then
      let _ ← readDigits
    else failHere .invalidNumber

/-- Leave out what follows the integer digits of a number. -/
def skipFraction : Reader Unit := do
  match ← peek with
  | some b =>
    if b = 0x2E then
      advance
      let digits ← readDigits
      if digits.isEmpty then failAtNext .invalidNumber
      match ← peek with
      | some e =>
        if e = 0x65 ∨ e = 0x45 then
          advance
          skipExponent
      | none => pure ()
    else if b = 0x65 ∨ b = 0x45 then
      advance
      skipExponent
  | none => pure ()

/-- Leave out a number, after its sign. -/
def skipNumber : Reader Unit := do
  match ← peek with
  | none => failHere .invalidNumber
  | some b =>
    if b = 0x30 then
      advance
      match ← peek with
      | some c => if isDigit c then failAtNext .invalidNumber else skipFraction
      | none => pure ()
    else if isDigit b then
      let _ ← readDigits
      skipFraction
    else
      advance
      failHere .invalidNumber

/-- The text after a string's closing quote. -/
def afterString : List UInt8 → Except Fault (List UInt8)
  | [] => .error ⟨.endInString, 0, []⟩
  | [b] =>
    if b = 0x22 then .ok []
    else if b = 0x5C then .error ⟨.endInString, 0, []⟩
    else if b < 0x20 then .error ⟨.controlInString, 1, []⟩
    else .error ⟨.endInString, 0, []⟩
  | b :: c :: rest =>
    if b = 0x22 then .ok (c :: rest)
    else if b = 0x5C then
      if c = 0x75 then
        match _h : readQuad rest with
        | .ok (_, rest') => afterString rest'
        | .error f => .error f
      else if [0x22, 0x5C, 0x2F, 0x62, 0x66, 0x6E, 0x72, 0x74].contains c then afterString rest
      else .error ⟨.invalidEscape, rest.length, []⟩
    else if b < 0x20 then .error ⟨.controlInString, rest.length + 2, []⟩
    else afterString (c :: rest)
termination_by bytes => bytes.length
decreasing_by
  · have := length_readQuad _h
    simp only [List.length_cons]; omega
  · simp only [List.length_cons]; omega
  · simp only [List.length_cons]; omega

/-- Leave out a string, after its opening quote. -/
def skipString : Reader Unit := do
  let rest ← (afterString (← get) : Except Fault _)
  set rest

/-- Leave out a member's name and colon. -/
def skipName : Reader Unit := do
  match ← nextToken with
  | none => failAtNext .endInObject
  | some b =>
    if b = 0x22 then
      advance
      skipString
      match ← nextToken with
      | none => failAtNext .endInObject
      | some c => if c = 0x3A then advance else failAtNext .expectedColon
    else failAtNext .nameNotString

mutual

/-- Leave out a value inside the open containers `frames`, then what is left of those. -/
def skipValueIn : (fuel : Nat) → (frames : List Frame) → Reader Unit
  | 0, _ => failHere .endInValue
  | fuel + 1, frames => do
    match ← nextToken with
    | none => failAtNext .endInValue
    | some b =>
      if b = 0x5B then
        advance
        skipRestOf fuel false .list frames
      else if b = 0x7B then
        advance
        skipRestOf fuel false .object frames
      else
        if b = 0x6E then
          advance
          readWord [0x75, 0x6C, 0x6C]
        else if b = 0x74 then
          advance
          readWord [0x72, 0x75, 0x65]
        else if b = 0x66 then
          advance
          readWord [0x61, 0x6C, 0x73, 0x65]
        else if b = 0x2D then
          advance
          skipNumber
        else if isDigit b then skipNumber
        else if b = 0x22 then
          advance
          skipString
        else failAtNext .expectedValue
        match frames with
        | [] => pure ()
        | frame :: outer => skipRestOf fuel true frame outer

/-- Leave out the rest of the open container `frame`; a comma may come next if `comma`. -/
def skipRestOf : (fuel : Nat) → (comma : Bool) → Frame → (outer : List Frame) → Reader Unit
  | 0, _, _, _ => failHere .endInValue
  | fuel + 1, comma, frame, outer => do
    let close : UInt8 := if frame = .list then 0x5D else 0x7D
    match ← nextToken with
    | none => failAtNext (if frame = .list then .endInList else .endInObject)
    | some b =>
      if comma && b = 0x2C then
        advance
        if frame = .object then skipName
        skipValueIn fuel (frame :: outer)
      else if b = close then
        advance
        match outer with
        | [] => pure ()
        | next :: outer => skipRestOf fuel true next outer
      else if comma then
        failAtNext (if frame = .list then .expectedListEnd else .expectedObjectEnd)
      else
        if frame = .object then skipName
        skipValueIn fuel (frame :: outer)

end

/-- Leave out the next value. -/
def skipValue : Reader Unit := do
  skipValueIn (2 * (← bound)) []

end ChainRelay.Json
