import ChainRelay.Net.Host

/-! # Addresses of resources

An address has a scheme, and for the schemes of the web a host, a port, a path, and perhaps a query
and a fragment. Reading brings it into its standard form. -/

namespace ChainRelay.Net

/-- An address in its standard form. -/
structure Url where
  scheme : String
  /-- The name and password before the host, with the `@`. -/
  credentials : String
  /-- The host, for an address that has one. -/
  host : Option String
  /-- The port, unless it is the one of the scheme. -/
  port : Option Nat
  path : String
  query : Option String
  fragment : Option String
  deriving DecidableEq, Repr

namespace Url

/-- The address without its credentials. -/
def publicText (u : Url) : String :=
  u.scheme ++ ":" ++
    (match u.host with
      | some host => "//" ++ host ++ (u.port.map fun p => ":" ++ Nat.repr p).getD ""
      | none => "") ++
    u.path ++ (u.query.map ("?" ++ ·)).getD "" ++ (u.fragment.map ("#" ++ ·)).getD ""

/-- The address in full. -/
def text (u : Url) : String :=
  u.scheme ++ ":" ++
    (match u.host with
      | some host => "//" ++ u.credentials ++ host ++ (u.port.map fun p => ":" ++ Nat.repr p).getD ""
      | none => "") ++
    u.path ++ (u.query.map ("?" ++ ·)).getD "" ++ (u.fragment.map ("#" ++ ·)).getD ""

/-- The port of a scheme of the web. -/
def webPort? (scheme : String) : Option Nat :=
  if scheme = "http" ∨ scheme = "ws" then some 80
  else if scheme = "https" ∨ scheme = "wss" then some 443
  else if scheme = "ftp" then some 21
  else none

/-- Escape the bytes that are not ASCII and the characters of a set. -/
def percentEncode (escaped : Char → Bool) (cs : List Char) : String :=
  let one (c : Char) : List Char :=
    if c.toNat < 0x20 || 0x7F ≤ c.toNat || escaped c then
      (String.utf8EncodeChar c).flatMap fun b =>
        ['%', (hexDigit (b.toNat / 16)).toUpper, (hexDigit (b.toNat % 16)).toUpper]
    else [c]
  String.ofList (cs.flatMap one)

/-- Characters that are escaped in fragments. -/
def inFragment (c : Char) : Bool :=
  " \"<>\x60".toList.contains c

/-- Characters that are escaped in paths. -/
def inPath (c : Char) : Bool :=
  inFragment c || "#?^\x7b\x7d".toList.contains c

/-- Characters that are escaped in credentials. -/
def inCredentials (c : Char) : Bool :=
  inPath c || "/:;=@[\\]^|".toList.contains c

/-- Characters that are escaped in queries. -/
def inQuery (web : Bool) (c : Char) : Bool :=
  " \"#<>".toList.contains c || (web && c = '\'')

/-- The text up to a character of a set, and from it on. -/
def spanUntil (stop : Char → Bool) (cs : List Char) : List Char × List Char :=
  cs.span (!stop ·)

/-- The scheme before the first colon, in lower case. -/
def readScheme? (cs : List Char) : Option (String × List Char) :=
  match cs with
  | c :: _ =>
    if c.isAlpha then
      let (name, rest) := cs.span fun c => c.isAlphanum || c = '+' || c = '-' || c = '.'
      match rest with
      | ':' :: rest => some (String.ofList (name.map Char.toLower), rest)
      | _ => none
    else none
  | [] => none

/-- A segment that stands for the path itself. -/
def isHere (s : List Char) : Bool :=
  s = ['.'] || (String.ofList s).toLower = "%2e"

/-- A segment that stands for the path above. -/
def isUp (s : List Char) : Bool :=
  ["..", ".%2e", "%2e.", "%2e%2e"].contains (String.ofList s).toLower

/-- Follow segments from a path, whose segments come last first. -/
def followSegments (done : List String) : List (List Char) → List String
  | [] => done
  | s :: rest =>
    let last := rest.isEmpty
    let done :=
      if isUp s then (if last then "" :: done.drop 1 else done.drop 1)
      else if isHere s then (if last then "" :: done else done)
      else percentEncode inPath s :: done
    followSegments done rest

/-- The path of some segments. -/
def pathOf (segments : List (List Char)) : String :=
  String.join ((followSegments [] segments).reverse.map ("/" ++ ·))

/-- Split at slashes, and at backslashes on the web. -/
def segmentsOf (web : Bool) (cs : List Char) : List (List Char) :=
  splitAt '/' (if web then cs.map fun c => if c = '\\' then '/' else c else cs)

/-- The query and the fragment. -/
def readEnd (web : Bool) (cs : List Char) : Option String × Option String :=
  let (front, tail) := spanUntil (· = '#') cs
  let query :=
    match front with
    | '?' :: q => some (percentEncode (inQuery web) q)
    | _ => none
  let fragment :=
    match tail with
    | _ :: f => some (percentEncode inFragment f)
    | [] => none
  (query, fragment)

/-- The credentials before the last `@` of the part that holds the host. -/
def readCredentials (cs : List Char) : Except UrlError (String × List Char × Bool) :=
  let after := (cs.reverse.takeWhile (· ≠ '@')).reverse
  if after.length = cs.length then .ok ("", cs, false)
  else
    let before := cs.take (cs.length - after.length - 1)
    if after.isEmpty then .error .emptyHost
    else
      let (name, tail) := spanUntil (· = ':') before
      let escape := percentEncode inCredentials
      let password := tail.drop 1
      let text := escape name ++ (if password.isEmpty then "" else ":" ++ escape password)
      .ok (if text.isEmpty then "" else text ++ "@", after, true)

/-- The host and what follows its end. -/
def spanHost (inBrackets : Bool) : List Char → List Char × List Char
  | [] => ([], [])
  | c :: rest =>
    if c = ':' && !inBrackets then ([], c :: rest)
    else
      let inside := if c = '[' then true else if c = ']' then false else inBrackets
      let (host, tail) := spanHost inside rest
      (c :: host, tail)

/-- A port after a colon, unless it is the one of the scheme. -/
def readPort (own : Option Nat) (cs : List Char) : Except UrlError (Option Nat) :=
  match cs with
  | ':' :: digits =>
    if digits.isEmpty then .ok none
    else if !digits.all Char.isDigit then .error .invalidPort
    else
      let n := digits.foldl (fun n d => min 65536 (n * 10 + (d.toNat - 48))) 0
      if 65535 < n then .error .invalidPort
      else .ok (if own = some n then none else some n)
  | _ => .ok none

/-- The host of a scheme that is not of the web. -/
def readOpaqueHost (cs : List Char) : Except UrlError String :=
  match cs with
  | '[' :: rest =>
    if cs.getLast? = some ']' then
      (readIpv6 rest.dropLast).map fun ws => "[" ++ ipv6Text ws ++ "]"
    else .error .invalidIpv6
  | _ =>
    if cs.any isForbiddenAnywhere then .error .invalidHostCharacter
    else .ok (percentEncode (fun _ => false) cs)

/-- The rest of an address of the web, after its scheme. -/
def readWeb (scheme : String) (cs : List Char) : Except UrlError Url := do
  let isSlash (c : Char) : Bool := c = '/' || c = '\\'
  let cs := cs.dropWhile isSlash
  let (authority, rest) := spanUntil (fun c => isSlash c || c = '?' || c = '#') cs
  let (credentials, place, _) ← readCredentials authority
  let (host, tail) := spanHost false place
  if host.isEmpty then throw .emptyHost
  let host ← readHost host
  let port ← readPort (webPort? scheme) tail
  let (path, tail) := spanUntil (fun c => c = '?' || c = '#') rest
  let (query, fragment) := readEnd true tail
  let segments := (segmentsOf true path).drop 1
  let path := if segments.isEmpty then "/" else pathOf segments
  return { scheme, credentials, host := some host, port, path, query, fragment }

/-- The rest of the address of a file. -/
def readFile (cs : List Char) : Except UrlError Url := do
  let (front, tail) := spanUntil (fun c => c = '?' || c = '#') cs
  let (query, fragment) := readEnd true tail
  let front := front.map fun c => if c = '\\' then '/' else c
  match front with
  | '/' :: '/' :: rest =>
    let (host, path) := spanUntil (· = '/') rest
    let host ← if host.isEmpty then pure "" else readHost host
    let host := if host = "localhost" then "" else host
    let segments := (segmentsOf true path).drop 1
    let path := if segments.isEmpty then "/" else pathOf segments
    return { scheme := "file", credentials := "", host := some host, port := none, path, query, fragment }
  | _ =>
    let segments := segmentsOf true front
    let segments := if front.head? = some '/' then segments.drop 1 else segments
    return { scheme := "file", credentials := "", host := some "", port := none
             path := pathOf segments, query, fragment }

/-- The rest of an address of any other scheme. -/
def readOther (scheme : String) (cs : List Char) : Except UrlError Url := do
  let (front, tail) := spanUntil (fun c => c = '?' || c = '#') cs
  let (query, fragment) := readEnd false tail
  match front with
  | '/' :: '/' :: rest =>
    let (authority, path) := spanUntil (· = '/') rest
    let (credentials, place, named) ← readCredentials authority
    let (host, tail) := spanHost false place
    let host ← readOpaqueHost host
    if host.isEmpty && (named || !tail.isEmpty) then throw .emptyHost
    let port ← readPort none tail
    let segments := (segmentsOf false path).drop 1
    let path := if path.isEmpty then "" else pathOf segments
    return { scheme, credentials, host := some host, port, path, query, fragment }
  | '/' :: rest =>
    return { scheme, credentials := "", host := none, port := none
             path := pathOf (segmentsOf false rest), query, fragment }
  | _ =>
    return { scheme, credentials := "", host := none, port := none
             path := percentEncode (fun _ => false) front, query, fragment }

/-- A control character or a space. -/
def isEdge (c : Char) : Bool :=
  c.toNat ≤ 0x20

/-- The address that a text writes. -/
def read (s : String) : Except UrlError Url :=
  let trimmed := ((s.toList.dropWhile isEdge).reverse.dropWhile isEdge).reverse
  let cs := trimmed.filter fun c => c != '\t' && c != '\n' && c != '\r'
  match readScheme? cs with
  | none => .error .relativeWithoutBase
  | some (scheme, rest) =>
    if scheme = "file" then readFile rest
    else if (webPort? scheme).isSome then readWeb scheme rest
    else readOther scheme rest

end Url

end ChainRelay.Net
