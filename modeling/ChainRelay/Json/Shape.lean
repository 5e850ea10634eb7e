import ChainRelay.Json.Skip

/-! # Reading values of known types

A `Shape` describes a record by its fields in order. It is read from an object, whose members may
come in any order, or from a list that holds the fields in theirs. Faults that concern the whole
record are reported behind its closing bracket, if that comes next. -/

namespace ChainRelay.Json

open Reader

/-- Fail because of the next value, which is not what was expected. -/
def failOnNext (expected : String) : Reader α := do
  match ← peek with
  | none => failAtNext .expectedValue
  | some b =>
    if b = 0x6E then
      advance
      readWord [0x75, 0x6C, 0x6C]
      failHere (.wrongType .null expected)
    else if b = 0x74 then
      advance
      readWord [0x72, 0x75, 0x65]
      failHere (.wrongType (.bool true) expected)
    else if b = 0x66 then
      advance
      readWord [0x61, 0x6C, 0x73, 0x65]
      failHere (.wrongType (.bool false) expected)
    else if b = 0x2D ∨ isDigit b then
      let n ← readNumber
      failHere (.wrongType (.number n) expected)
    else if b = 0x22 then
      advance
      let s ← readString
      failHere (.wrongType (.string s) expected)
    else if b = 0x5B then failHere (.wrongType .list expected)
    else if b = 0x7B then failHere (.wrongType .object expected)
    else failAtNext .expectedValue

/-- The first byte of a value that has to follow. -/
def firstOfValue : Reader UInt8 := do
  match ← nextToken with
  | none => failAtNext .endInValue
  | some b => return b

/-- A whole number below `bound`, called `type` in faults. -/
def readUnsignedBelow (type : String) (bound : Nat) : Reader Nat := do
  let b ← firstOfValue
  if b = 0x2D ∨ isDigit b then
    match ← readNumber with
    | .int n fits =>
      if 0 ≤ n ∧ n < bound then return n.toNat
      else failHere (.wrongValue (.number (.int n fits)) type)
    | .float x => failHere (.wrongType (.number (.float x)) type)
  else failOnNext type

/-- A whole number of 64 bits without sign. -/
def readUInt64 : Reader UInt64 :=
  UInt64.ofNat <$> readUnsignedBelow "u64" UInt64.size

/-- A string. -/
def readText : Reader String := do
  if (← firstOfValue) = 0x22 then
    advance
    readString
  else failOnNext "a string"

/-- A truth value. -/
def readBool : Reader Bool := do
  let b ← firstOfValue
  if b = 0x74 then
    advance
    readWord [0x72, 0x75, 0x65]
    return true
  else if b = 0x66 then
    advance
    readWord [0x61, 0x6C, 0x73, 0x65]
    return false
  else failOnNext "a boolean"

/-- A value or `null`. -/
def readOptional (value : Reader α) : Reader (Option α) := do
  if (← nextToken) == some 0x6E then
    advance
    readWord [0x75, 0x6C, 0x6C]
    return none
  else some <$> value

/-- A list of values, each of which may open `room` containers inside each other less one. -/
def readList (item : Nat → Reader α) (room : Nat) : Reader (List α) := do
  if (← firstOfValue) = 0x5B then
    match room with
    | 0 => failAtNext .tooDeep
    | room + 1 =>
      advance
      let items ← readItems (item room) (← bound) 0
      closeList
      return items
  else failOnNext "a sequence"

/-- Fail behind the end of an object, as far as that comes next. -/
def failAfterObject (p : Problem) : Reader α := do
  if (← nextToken) == some 0x7D then advance
  failHere p

/-- Fail behind the end of a list, or behind a comma, as far as one of them comes next. -/
def failAfterList (p : Problem) : Reader α := do
  let next ← nextToken
  if next == some 0x5D then advance
  else if next == some 0x2C then
    advance
    let _ ← nextToken
  failHere p

/-- A field of a record under construction. -/
structure Slot (σ : Type) where
  name : String
  /-- The field has no default. -/
  required : Bool
  /-- The field has been read. -/
  filled : σ → Bool
  /-- Read the field and put it into the record. -/
  read : (room : Nat) → Reader (σ → σ)

/-- How a record is read. -/
structure Shape (σ α : Type) where
  title : String
  slots : List (Slot σ)
  /-- Members of other names are refused. -/
  strict : Bool
  empty : σ
  /-- The record, unless a required field is missing. -/
  finish : σ → Option α

namespace Shape

/-- The record, or the fault that the first missing field makes. -/
def complete (shape : Shape σ α) (fail : Problem → Reader α) (record : σ) : Reader α :=
  match shape.slots.find? fun slot => slot.required && !slot.filled record with
  | some slot => fail (.missingField slot.name)
  | none =>
    match shape.finish record with
    | some a => pure a
    | none => fail .expectedValue

/-- The members of a record from an object. -/
def readFields (shape : Shape σ α) (room : Nat) :
    (fuel : Nat) → (first : Bool) → (record : σ) → Reader σ
  | 0, _, _ => failHere .endInObject
  | fuel + 1, first, record => do
    match ← nextName first with
    | none => return record
    | some name =>
      match shape.slots.find? (·.name == name) with
      | some slot =>
        if slot.filled record then failAfterObject (.duplicateField name)
        else
          let put ← readMember name (slot.read room)
          readFields shape room fuel false (put record)
      | none =>
        if shape.strict then
          below (.key name)
            (failAfterObject (.unknownField name (shape.slots.map (·.name))))
        else
          readMember name skipValue
          readFields shape room fuel false record

/-- The fields of a record from a list, from the one at `index` on. -/
def readInOrder (shape : Shape σ α) (room : Nat) :
    List (Slot σ) → (index : Nat) → (first : Bool) → (record : σ) → Reader σ
  | [], _, _, record => return record
  | slot :: rest, index, first, record => do
    if ← nextItem first then
      let put ← below (.index index) (slot.read room)
      readInOrder shape room rest (index + 1) false (put record)
    else if slot.required then
      let count := shape.slots.length
      let elements := if count = 1 then " element" else " elements"
      failAfterList
        (.wrongLength index ("struct " ++ shape.title ++ " with " ++ Nat.repr count ++ elements))
    else readInOrder shape room rest (index + 1) first record

/-- The record that comes next. -/
def read (shape : Shape σ α) (room : Nat) : Reader α := do
  let b ← firstOfValue
  if b = 0x7B then
    match room with
    | 0 => failAtNext .tooDeep
    | room + 1 =>
      advance
      let record ← shape.readFields room (← bound) true shape.empty
      let a ← shape.complete failAfterObject record
      closeObject
      return a
  else if b = 0x5B then
    match room with
    | 0 => failAtNext .tooDeep
    | room + 1 =>
      advance
      let record ← shape.readInOrder room shape.slots 0 true shape.empty
      let a ← shape.complete failAfterList record
      closeList
      return a
  else failOnNext ("struct " ++ shape.title)

end Shape

/-- The text of the one value of a choice of names: a string, or an object whose only member has
the name and is `null`. -/
def readVariant (names : List String) (room : Nat) : Reader String := do
  let pick (s : String) : Reader String :=
    if names.contains s then pure s else failHere (.unknownVariant s names)
  match ← nextToken with
  | none => failAtNext .endInValue
  | some b =>
    if b = 0x22 then
      advance
      pick (← readString)
    else if b = 0x7B then
      if room = 0 then failAtNext .tooDeep
      else
        advance
        if (← firstOfValue) = 0x22 then
          advance
          let name ← pick (← readString)
          readColon
          below (.key name) do
            if (← firstOfValue) = 0x6E then
              advance
              readWord [0x75, 0x6C, 0x6C]
            else failOnNext "unit"
          match ← nextToken with
          | none => failHere .endInObject
          | some c =>
            if c = 0x7D then
              advance
              return name
            else failHere .expectedValue
        else failOnNext "variant identifier"
    else failAtNext .expectedValue

end ChainRelay.Json
