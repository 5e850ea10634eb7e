/-! # Endpoints

The address of a collector: an authority alone, or a scheme, an authority and a path. A text is
checked from left to right, and the first fault wins. -/

namespace ChainRelay.Net

/-- Why a text is no endpoint. -/
inductive EndpointFault where
  | empty
  | tooLong
  | schemeTooLong
  | invalidCharacter
  | invalidAuthority
  | invalidFormat
  deriving DecidableEq, Repr

/-- The wording of a fault. -/
def EndpointFault.message : EndpointFault → String
  | .empty => "empty string"
  | .tooLong => "uri too long"
  | .schemeTooLong => "scheme too long"
  | .invalidCharacter => "invalid uri character"
  | .invalidAuthority => "invalid authority"
  | .invalidFormat => "invalid format"

namespace Endpoint

/-- The greatest number of bytes. -/
def greatestLength : Nat := 65534

/-- The greatest length of a scheme. -/
def greatestScheme : Nat := 64

/-- The greatest number of colons in a row of groups. -/
def greatestColons : Nat := 8

/-- A character of a scheme. -/
def isSchemeChar (c : Char) : Bool :=
  c.isAlphanum || "+-.~".toList.contains c

/-- A character of an authority that has no meaning of its own there. -/
def isAuthorityChar (c : Char) : Bool :=
  c.isAlphanum || "!$&'()*+,-.;=_~".toList.contains c

/-- A character that may stand in a path. -/
def isPathChar (c : Char) : Bool :=
  ' ' < c && !"<>\x60".toList.contains c

/-- A character that may stand in a query. -/
def isQueryChar (c : Char) : Bool :=
  ' ' < c && !"\"<>".toList.contains c

/-- The end of an authority. -/
def endsAuthority (c : Char) : Bool :=
  c == '/' || c == '?' || c == '#'

/-- What has been seen of an authority. -/
structure Authority where
  colons : Nat := 0
  opened : Bool := false
  closed : Bool := false
  percent : Bool := false
  /-- The last character was an `@`. -/
  atSign : Bool := false

namespace Authority

/-- Read one more character. What stands before an `@` or inside brackets may hold colons and
percent signs. -/
def step (a : Authority) (c : Char) : Except EndpointFault Authority :=
  let a := { a with atSign := c == '@' }
  match c with
  | ':' =>
    if greatestColons ≤ a.colons then .error .invalidAuthority
    else .ok { a with colons := a.colons + 1 }
  | '[' => if a.percent || a.opened then .error .invalidAuthority else .ok { a with opened := true }
  | ']' =>
    if !a.opened || a.closed then .error .invalidAuthority
    else .ok { a with closed := true, colons := 0, percent := false }
  | '@' => .ok { a with colons := 0, percent := false }
  | '%' => .ok { a with percent := true }
  | c => if isAuthorityChar c then .ok a else .error .invalidCharacter

/-- An authority may end here. -/
def isComplete (a : Authority) : Bool :=
  a.opened == a.closed && a.colons ≤ 1 && !a.atSign && !a.percent

/-- Read an authority; what follows it is left. -/
def read (a : Authority) : List Char → Except EndpointFault (List Char)
  | [] => if a.isComplete then .ok [] else .error .invalidAuthority
  | c :: rest =>
    if endsAuthority c then if a.isComplete then .ok (c :: rest) else .error .invalidAuthority
    else
      match a.step c with
      | .ok a => read a rest
      | .error e => .error e

end Authority

/-- Check a query up to a fragment. -/
def checkQuery : List Char → Except EndpointFault Unit
  | [] => .ok ()
  | '#' :: _ => .ok ()
  | c :: rest => if isQueryChar c then checkQuery rest else .error .invalidCharacter

/-- Check a path and the query after it, up to a fragment. -/
def checkPath : List Char → Except EndpointFault Unit
  | [] => .ok ()
  | '?' :: rest => checkQuery rest
  | '#' :: _ => .ok ()
  | c :: rest => if isPathChar c then checkPath rest else .error .invalidCharacter

/-- What follows a scheme and its slashes, if the text has a scheme. -/
def afterScheme (cs : List Char) : Except EndpointFault (Option (List Char)) :=
  match cs.dropWhile isSchemeChar with
  | ':' :: '/' :: '/' :: rest =>
    if greatestScheme < (cs.takeWhile isSchemeChar).length then .error .schemeTooLong
    else .ok (some rest)
  | _ => .ok none

/-- Check a text of more than one character that does not begin with a slash. -/
def checkFull (cs : List Char) : Except EndpointFault Unit :=
  match afterScheme cs with
  | .error e => .error e
  | .ok none =>
    match Authority.read {} cs with
    | .error e => .error e
    | .ok rest => if rest.isEmpty then .ok () else .error .invalidFormat
  | .ok (some inner) =>
    match Authority.read {} inner with
    | .error e => .error e
    | .ok rest => if rest.length = inner.length then .error .invalidFormat else checkPath rest

/-- Check an endpoint. -/
def check (s : String) : Except EndpointFault Unit :=
  if greatestLength < s.utf8ByteSize then .error .tooLong
  else
    match s.toList with
    | [] => .error .empty
    | ['/'] => .ok ()
    | ['*'] => .ok ()
    | [c] =>
      if endsAuthority c then .error .invalidCharacter
      else (Authority.read {} [c]).map fun _ => ()
    | '/' :: rest => checkPath ('/' :: rest)
    | cs => checkFull cs

end Endpoint

end ChainRelay.Net
