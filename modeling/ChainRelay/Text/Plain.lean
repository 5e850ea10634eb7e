/-! # Plain text

Text as a reader sees it: without control characters, apart from blank ones, and without the escape
sequences of terminals. -/

namespace ChainRelay

/-- Where a character stands in an escape sequence. -/
inductive EscapeState where
  /-- Outside of sequences. -/
  | text
  /-- After the escape character. -/
  | start
  /-- After characters that modify a short sequence. -/
  | modified
  /-- In a control sequence. -/
  | control
  /-- In a string for the terminal, which a bell may end. -/
  | string (bellEnds : Bool)
  deriving DecidableEq, Repr

namespace EscapeState

/-- A control character that separates words or lines. -/
def isSeparator (c : Char) : Bool :=
  c == '\t' || c == '\n' || c == '\x0c' || c == '\r'

/-- A control character of ASCII. -/
def isControl (c : Char) : Bool :=
  c.toNat < 0x20 || c.toNat == 0x7F

/-- The state after a character, and whether the character is seen. A separator inside a sequence
ends it and is seen; inside a string it is part of the string. -/
def step (state : EscapeState) (c : Char) : EscapeState × Bool :=
  let n := c.toNat
  let short (next : EscapeState) : EscapeState × Bool :=
    if isSeparator c then (.text, true)
    else if isControl c then (state, false)
    else if 0x7F < n then (.text, true)
    else (next, false)
  if n = 0x1B then (.start, false)
  else if n = 0x18 ∨ n = 0x1A then (.text, false)
  else
    match state with
    | .text => (.text, !isControl c || isSeparator c)
    | .start =>
      short (match c with
        | '[' => .control
        | ']' => .string true
        | 'P' | 'X' | '^' | '_' => .string false
        | _ => if n < 0x30 then .modified else .text)
    | .modified => short (if n < 0x30 then .modified else .text)
    | .control => short (if n < 0x40 then .control else .text)
    | .string bellEnds => (if bellEnds ∧ n = 0x07 then .text else state, false)

/-- The characters that are seen. -/
def seen : EscapeState → List Char → List Char
  | _, [] => []
  | state, c :: rest =>
    let (next, visible) := state.step c
    if visible then c :: seen next rest else seen next rest

end EscapeState

/-- The text as a reader sees it. -/
def plainText (s : String) : String :=
  String.ofList (EscapeState.text.seen s.toList)

end ChainRelay
