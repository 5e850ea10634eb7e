import ChainRelay.Json.Number

/-! # JSON values

An object that is read from text holds its members in ascending order of their names, each name
once; `Members.insert` keeps that order. An object that is only written may hold them in any. -/

namespace ChainRelay.Json

/-- A JSON value. -/
inductive Value where
  | null
  | bool (b : Bool)
  | number (n : Number)
  | string (s : String)
  | array (items : List Value)
  | object (members : List (String × Value))

instance : Inhabited Value := ⟨.null⟩

/-- The members of an object. -/
abbrev Members := List (String × Value)

namespace Members

/-- Put a member in its place; a later member replaces an earlier one of the same name. -/
def insert (name : String) (value : Value) : Members → Members
  | [] => [(name, value)]
  | (other, old) :: rest =>
    if name < other then (name, value) :: (other, old) :: rest
    else if name = other then (name, value) :: rest
    else (other, old) :: insert name value rest

/-- The value of a member. -/
def get? (name : String) : Members → Option Value
  | [] => none
  | (other, value) :: rest => if other = name then some value else get? name rest

/-- The names of the members, in order. -/
def names (members : Members) : List String :=
  members.map (·.1)

end Members

namespace Value

/-- The value is an object with a member of this name. -/
def member? (name : String) : Value → Option Value
  | .object members => Members.get? name members
  | _ => none

/-- The name of a value's type. -/
def typeName : Value → String
  | .null => "null"
  | .bool _ => "boolean"
  | .number _ => "number"
  | .string _ => "string"
  | .array _ => "array"
  | .object _ => "object"

/-- A natural number as a JSON number. -/
def ofUInt64 (n : UInt64) : Value :=
  .number (.ofUInt64 n)

end Value

end ChainRelay.Json
