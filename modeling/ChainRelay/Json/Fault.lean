import ChainRelay.Json.Printer
import ChainRelay.Text.Escaped

/-! # Why JSON text is refused

A fault names the problem, how many bytes were still unread where it is reported, and the path of
the value it lies in. -/

namespace ChainRelay.Json

/-- What stands where something else was expected. -/
inductive Found where
  | null
  | bool (b : Bool)
  | number (n : Number)
  | string (s : String)
  | list
  | object

/-- What is wrong with a text. -/
inductive Problem where
  | endInList
  | endInObject
  | endInString
  | endInValue
  | expectedColon
  | expectedListEnd
  | expectedObjectEnd
  | expectedWord
  | expectedValue
  | invalidEscape
  | invalidNumber
  | numberOutOfRange
  | invalidCodePoint
  | controlInString
  | nameNotString
  | loneSurrogate
  | trailingComma
  | trailingText
  | unfinishedSurrogate
  | tooDeep
  /-- A value of another type than the expected one. -/
  | wrongType (found : Found) (expected : String)
  /-- A value of the expected type that is not allowed. -/
  | wrongValue (found : Found) (expected : String)
  /-- A list of the wrong length. -/
  | wrongLength (length : Nat) (expected : String)
  | unknownField (name : String) (expected : List String)
  | missingField (name : String)
  | duplicateField (name : String)
  | unknownVariant (name : String) (expected : List String)
  /-- A string that the reader of its content refuses. -/
  | refused (message : String)

/-- One step from a value to a part of it. -/
inductive Step where
  /-- The item at an index. -/
  | index (n : Nat)
  /-- The member of a name. -/
  | key (name : String)
  /-- A member whose name is not known. -/
  | unknown
  deriving DecidableEq, Repr

/-- A refusal of a text. -/
structure Fault where
  problem : Problem
  /-- The number of unread bytes at the reported position. -/
  left : Nat
  path : List Step

/-- The kind of value found, in words. -/
def Found.text : Found → String
  | .null => "null"
  | .bool b => "boolean `" ++ (if b then "true" else "false") ++ "`"
  | .number (.int n _) => "integer `" ++ Number.intText n ++ "`"
  | .number (.float x) => "floating point `" ++ Number.floatText x ++ "`"
  | .string s => "string " ++ quoteText s
  | .list => "sequence"
  | .object => "map"

/-- The names a choice offers, in words. -/
def offered (none : String) : List String → String
  | [] => "there are no " ++ none
  | [a] => "expected `" ++ a ++ "`"
  | [a, b] => "expected `" ++ a ++ "` or `" ++ b ++ "`"
  | names => "expected one of " ++ String.intercalate ", " (names.map fun a => "`" ++ a ++ "`")

/-- The problem in words. -/
def Problem.message : Problem → String
  | .endInList => "EOF while parsing a list"
  | .endInObject => "EOF while parsing an object"
  | .endInString => "EOF while parsing a string"
  | .endInValue => "EOF while parsing a value"
  | .expectedColon => "expected `:`"
  | .expectedListEnd => "expected `,` or `]`"
  | .expectedObjectEnd => "expected `,` or `\x7d`"
  | .expectedWord => "expected ident"
  | .expectedValue => "expected value"
  | .invalidEscape => "invalid escape"
  | .invalidNumber => "invalid number"
  | .numberOutOfRange => "number out of range"
  | .invalidCodePoint => "invalid unicode code point"
  | .controlInString => "control character (\\u0000-\\u001F) found while parsing a string"
  | .nameNotString => "key must be a string"
  | .loneSurrogate => "lone leading surrogate in hex escape"
  | .trailingComma => "trailing comma"
  | .trailingText => "trailing characters"
  | .unfinishedSurrogate => "unexpected end of hex escape"
  | .tooDeep => "recursion limit exceeded"
  | .wrongType found expected => "invalid type: " ++ found.text ++ ", expected " ++ expected
  | .wrongValue found expected => "invalid value: " ++ found.text ++ ", expected " ++ expected
  | .wrongLength n expected => "invalid length " ++ Nat.repr n ++ ", expected " ++ expected
  | .unknownField name expected => "unknown field `" ++ name ++ "`, " ++ offered "fields" expected
  | .missingField name => "missing field `" ++ name ++ "`"
  | .duplicateField name => "duplicate field `" ++ name ++ "`"
  | .unknownVariant name expected =>
    "unknown variant `" ++ name ++ "`, " ++ offered "variants" expected
  | .refused message => message

/-- Put every fault of a part below the step that leads to it. -/
def Fault.below (step : Step) (f : Fault) : Fault :=
  { f with path := step :: f.path }

/-- The line, from 1, and the number of bytes of that line read at a position. -/
def position (input : List UInt8) (left : Nat) : Nat × Nat :=
  let before := input.take (input.length - left)
  (before.count 10 + 1, (before.reverse.takeWhile (· != 10)).length)

/-- The text of a path after its first step. -/
def pathRest : List Step → String
  | [] => ""
  | .index n :: rest => "[" ++ Nat.repr n ++ "]" ++ pathRest rest
  | .key name :: rest => "." ++ name ++ pathRest rest
  | .unknown :: rest => ".?" ++ pathRest rest

/-- The text of a path: members after dots, items in brackets, a single dot for the value itself. -/
def pathText : List Step → String
  | [] => "."
  | .index n :: rest => "[" ++ Nat.repr n ++ "]" ++ pathRest rest
  | .key name :: rest => name ++ pathRest rest
  | .unknown :: rest => "?" ++ pathRest rest

/-- A refusal with its position in the text. -/
structure Refusal where
  problem : Problem
  line : Nat
  column : Nat
  path : List Step

/-- Locate a fault in its text. -/
def Fault.locate (input : List UInt8) (f : Fault) : Refusal :=
  let (line, column) := position input f.left
  { problem := f.problem, line, column, path := f.path }

/-- The problem and its position. -/
def Refusal.message (r : Refusal) : String :=
  r.problem.message ++ " at line " ++ Nat.repr r.line ++ " column " ++ Nat.repr r.column

/-- The message after the path, which is left out when no step of it is known. -/
def Refusal.messageWithPath (r : Refusal) : String :=
  if r.path.all (· == .unknown) then r.message else pathText r.path ++ ": " ++ r.message

end ChainRelay.Json
