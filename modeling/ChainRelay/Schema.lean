import ChainRelay.Json.Printer
import ChainRelay.Json.Value
import ChainRelay.Text.Blank
import ChainRelay.Text.Raw

/-! # Configuration schemas

A schema lists the fields that a module expects. It refuses malformed configurations before a
backend is built, and its help text has one line for each field. -/

namespace ChainRelay

open Json (Value)

/-- The JSON type of a field. -/
inductive FieldKind where
  | string
  /-- A whole number of 64 bits, with or without a sign. -/
  | integer
  | boolean
  | object
  | array
  | any
  deriving DecidableEq, Repr

namespace FieldKind

/-- The name of a kind. -/
def name : FieldKind → String
  | .string => "string"
  | .integer => "integer"
  | .boolean => "boolean"
  | .object => "object"
  | .array => "array"
  | .any => "any"

/-- The value is of the kind. -/
def holds : FieldKind → Value → Bool
  | .string, .string _ => true
  | .integer, .number (.int _ _) => true
  | .boolean, .bool _ => true
  | .object, .object _ => true
  | .array, .array _ => true
  | .any, _ => true
  | _, _ => false

end FieldKind

/-- Whether a field must be there, and what stands for it otherwise. -/
inductive Presence where
  | required
  | optional (default : Value)

/-- A named field. -/
structure Field where
  name : String
  kind : FieldKind
  description : String
  presence : Presence

namespace Field

/-- The field must be there. -/
def isRequired (f : Field) : Bool :=
  match f.presence with
  | .required => true
  | .optional _ => false

/-- The value that stands for an absent field. -/
def default? (f : Field) : Option Value :=
  match f.presence with
  | .required => none
  | .optional v => some v

end Field

/-- The fields that a configuration may have. -/
abbrev Schema := List Field

/-- Why a configuration does not satisfy a schema. -/
inductive SchemaError where
  | notAnObject (found : String)
  | missingField (name : String)
  | wrongType (name : String) (expected : FieldKind) (found : String)
  | unknownField (name : String)
  deriving DecidableEq, Repr

/-- The wording of a violation. -/
def SchemaError.message : SchemaError → String
  | .notAnObject found => "expected a JSON object, found " ++ found
  | .missingField name => "missing required field `" ++ name ++ "`"
  | .wrongType name expected found =>
    "field `" ++ name ++ "` must be " ++ expected.name ++ ", found " ++ found
  | .unknownField name => "unknown field `" ++ name ++ "`"

/-- What is wrong with the value of one field. -/
def Field.violation? (f : Field) (value : Option Value) : Option SchemaError :=
  match value with
  | none => if f.isRequired then some (.missingField f.name) else none
  | some .null =>
    if f.isRequired then some (.missingField f.name)
    else if f.kind.holds .null then none
    else some (.wrongType f.name f.kind Value.null.typeName)
  | some v => if f.kind.holds v then none else some (.wrongType f.name f.kind v.typeName)

namespace Schema

/-- What is wrong with an object: a member that is not declared comes first, then the fields in
their order. -/
def membersViolation? (schema : Schema) (members : Json.Members) : Option SchemaError :=
  match members.names.find? fun name => !schema.any (·.name == name) with
  | some name => some (.unknownField name)
  | none => schema.findSome? fun f => f.violation? (members.get? f.name)

/-- Check a configuration; an absent one counts as an empty object. -/
def validate (schema : Schema) (config : Value) : Except SchemaError Unit :=
  let check (members : Json.Members) : Except SchemaError Unit :=
    match schema.membersViolation? members with
    | some e => .error e
    | none => .ok ()
  match config with
  | .object members => check members
  | .null => check []
  | other => .error (.notAnObject other.typeName)

/-- One line of the help text, with names padded to a width. -/
def fieldLine (width : Nat) (f : Field) : String :=
  let presence :=
    match f.presence with
    | .required => "required"
    | .optional default => "default: " ++ default.compact
  padRight width f.name ++ "  " ++ padRight 8 f.kind.name ++ " " ++ f.description ++
    " [" ++ presence ++ "]\n"

/-- The help text. -/
def help (schema : Schema) : String :=
  if schema.isEmpty then "(no configuration)\n"
  else
    let width := (schema.map fun f => (utf8Bytes f.name).length).foldl max 0
    String.join (schema.map (fieldLine width))

end Schema

end ChainRelay
