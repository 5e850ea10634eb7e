import ChainRelay.Json.Value
import ChainRelay.Text.Hex

/-! # JSON text

Two layouts: without any blanks, and with one item a line indented by two spaces a level. Quotes,
backslashes and controls are escaped, all other characters stand for themselves. -/

namespace ChainRelay.Json

/-- A character as it stands inside a JSON string. -/
def escaped (c : Char) : List Char :=
  if c = '"' then ['\\', '"']
  else if c = '\\' then ['\\', '\\']
  else if c = '\x08' then ['\\', 'b']
  else if c = '\t' then ['\\', 't']
  else if c = '\n' then ['\\', 'n']
  else if c = '\x0c' then ['\\', 'f']
  else if c = '\r' then ['\\', 'r']
  else if c.toNat < 0x20 then
    ['\\', 'u', '0', '0', hexDigit (c.toNat / 16), hexDigit (c.toNat % 16)]
  else [c]

/-- A string as JSON text. -/
def quoted (s : String) : String :=
  "\"" ++ String.ofList (s.toList.flatMap escaped) ++ "\""

/-- The line break before an item `level` levels deep. -/
def lineBreak (level : Nat) : String :=
  "\n" ++ String.ofList (List.replicate (2 * level) ' ')

namespace Value

mutual

/-- The text without blanks. -/
def compact : Value → String
  | .null => "null"
  | .bool true => "true"
  | .bool false => "false"
  | .number n => n.text
  | .string s => quoted s
  | .array items => "[" ++ compactItems items ++ "]"
  | .object members => "\x7b" ++ compactMembers members ++ "\x7d"

/-- Items separated by commas. -/
def compactItems : List Value → String
  | [] => ""
  | [v] => v.compact
  | v :: w :: rest => v.compact ++ "," ++ compactItems (w :: rest)

/-- Members separated by commas. -/
def compactMembers : List (String × Value) → String
  | [] => ""
  | [(name, v)] => quoted name ++ ":" ++ v.compact
  | (name, v) :: w :: rest => quoted name ++ ":" ++ v.compact ++ "," ++ compactMembers (w :: rest)

end

mutual

/-- The text with one item a line, for a value `level` levels deep. -/
def prettyAt (level : Nat) : Value → String
  | .null => "null"
  | .bool true => "true"
  | .bool false => "false"
  | .number n => n.text
  | .string s => quoted s
  | .array [] => "[]"
  | .array (v :: rest) => "[" ++ prettyItems (level + 1) (v :: rest) ++ lineBreak level ++ "]"
  | .object [] => "\x7b\x7d"
  | .object (v :: rest) =>
    "\x7b" ++ prettyMembers (level + 1) (v :: rest) ++ lineBreak level ++ "\x7d"

/-- Items on lines of their own. -/
def prettyItems (level : Nat) : List Value → String
  | [] => ""
  | [v] => lineBreak level ++ v.prettyAt level
  | v :: w :: rest => lineBreak level ++ v.prettyAt level ++ "," ++ prettyItems level (w :: rest)

/-- Members on lines of their own. -/
def prettyMembers (level : Nat) : List (String × Value) → String
  | [] => ""
  | [(name, v)] => lineBreak level ++ quoted name ++ ": " ++ v.prettyAt level
  | (name, v) :: w :: rest =>
    lineBreak level ++ quoted name ++ ": " ++ v.prettyAt level ++ "," ++
      prettyMembers level (w :: rest)

end

/-- The text with one item a line. -/
def pretty (v : Value) : String :=
  v.prettyAt 0

end Value

end ChainRelay.Json
