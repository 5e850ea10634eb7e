import ChainRelay.Net.Domain
import ChainRelay.Text.Hex
import ChainRelay.Text.Raw

/-! # Hosts

A host is a domain name, an address of four bytes or one of eight words. -/

namespace ChainRelay.Net

/-- Why a text is no address of a resource. -/
inductive UrlError where
  | emptyHost
  | invalidDomain
  | invalidPort
  | invalidIpv4
  | invalidIpv6
  | invalidHostCharacter
  | relativeWithoutBase
  deriving DecidableEq, Repr

/-- The wording of a refusal. -/
def UrlError.message : UrlError → String
  | .emptyHost => "empty host"
  | .invalidDomain => "invalid international domain name"
  | .invalidPort => "invalid port number"
  | .invalidIpv4 => "invalid IPv4 address"
  | .invalidIpv6 => "invalid IPv6 address"
  | .invalidHostCharacter => "invalid domain character"
  | .relativeWithoutBase => "relative URL without a base"

/-- The number that digits of a base write. -/
def readDigitsOf (base : Nat) (cs : List Char) : Option Nat :=
  cs.foldlM (fun n c => do
    let d ← hexValue? c
    if d < base then some (n * base + d) else none) 0

/-! ## Addresses of four bytes -/

/-- A number in base ten, in base sixteen after `0x`, or in base eight after `0`. -/
def ipv4Number? (cs : List Char) : Option Nat :=
  match cs with
  | [] => none
  | '0' :: 'x' :: rest => readDigitsOf 16 rest
  | '0' :: 'X' :: rest => readDigitsOf 16 rest
  | '0' :: d :: rest => readDigitsOf 8 (d :: rest)
  | _ => readDigitsOf 10 cs

/-- The parts of a name between dots, without the empty one after a last dot. -/
def dottedParts (cs : List Char) : List (List Char) :=
  let parts := splitAt '.' cs
  if parts.getLast? = some [] then parts.dropLast else parts

/-- The last part of a name is a number. -/
def endsInNumber (cs : List Char) : Bool :=
  match (dottedParts cs).getLast? with
  | some part => !part.isEmpty && (part.all Char.isDigit || (ipv4Number? part).isSome)
  | none => false

/-- The address of four bytes that numbers write; the last one fills all bytes that are left. -/
def readIpv4 (cs : List Char) : Except UrlError Nat :=
  let parts := dottedParts cs
  match parts.mapM ipv4Number? with
  | none => .error .invalidIpv4
  | some numbers =>
    let front := numbers.dropLast
    let last := numbers.getLastD 0
    if 4 < numbers.length || front.any (255 < ·) || Nat.pow 256 (4 - front.length) ≤ last then
      .error .invalidIpv4
    else
      .ok (last + (front.zipIdx.map fun (n, i) => n * Nat.pow 256 (3 - i)).foldl (· + ·) 0)

/-- The text of an address of four bytes. -/
def ipv4Text (n : Nat) : String :=
  String.intercalate "."
    ([n / 0x1000000, n / 0x10000 % 256, n / 256 % 256, n % 256].map Nat.repr)

/-! ## Addresses of eight words -/

/-- One word: up to four digits. -/
def ipv6Word? (cs : List Char) : Option Nat :=
  if cs.isEmpty || 4 < cs.length then none else readDigitsOf 16 cs

/-- One byte in base ten without leading zeros. -/
def ipv6Byte? (cs : List Char) : Option Nat := do
  if cs.isEmpty || (cs.head? = some '0' && 1 < cs.length) then none
  let n ← readDigitsOf 10 cs
  if n ≤ 255 then some n else none

/-- The words of a group that may end in an address of four bytes. -/
def ipv6Tail? (cs : List Char) : Option (List Nat) :=
  if cs.contains '.' then
    match (splitAt '.' cs).mapM ipv6Byte? with
    | some [a, b, c, d] => some [a * 256 + b, c * 256 + d]
    | _ => none
  else (ipv6Word? cs).map ([·])

/-- The words between colons. -/
def ipv6Words? (last : Bool) (cs : List Char) : Option (List Nat) :=
  if cs.isEmpty then some []
  else
    let groups := splitAt ':' cs
    if last then do
      let front ← groups.dropLast.mapM ipv6Word?
      return front ++ (← ipv6Tail? (groups.getLastD []))
    else groups.mapM ipv6Word?

/-- Split at the first two colons in a row. -/
def splitAtGap : List Char → Option (List Char × List Char)
  | ':' :: ':' :: rest => some ([], rest)
  | c :: rest => (splitAtGap rest).map fun (a, b) => (c :: a, b)
  | [] => none

/-- The eight words of an address; two colons in a row stand for words of zero. -/
def readIpv6 (cs : List Char) : Except UrlError (List Nat) :=
  let words : Option (List Nat) :=
    match splitAtGap cs with
    | some (left, right) => do
      let front ← ipv6Words? false left
      let back ← ipv6Words? true right
      let missing := 8 - (front.length + back.length)
      if missing = 0 then none else some (front ++ List.replicate missing 0 ++ back)
    | none => if cs.isEmpty then none else ipv6Words? true cs
  match words with
  | some ws => if ws.length = 8 then .ok ws else .error .invalidIpv6
  | none => .error .invalidIpv6

/-- Where the first longest run of zeros begins, and its length, from `index` on. -/
def longestZeros (index : Nat) : List Nat → Nat × Nat
  | [] => (0, 0)
  | w :: rest =>
    let here := ((w :: rest).takeWhile (· = 0)).length
    let (start, length) := longestZeros (index + 1) rest
    if length ≤ here && 0 < here then (index, here) else (start, length)

/-- Words in base sixteen with colons between them. -/
def wordsText (ws : List Nat) : String :=
  String.intercalate ":" (ws.map fun w => String.ofList (Nat.toDigits 16 w))

/-- The text of an address of eight words. -/
def ipv6Text (ws : List Nat) : String :=
  let (start, length) := longestZeros 0 ws
  if length < 2 then wordsText ws
  else wordsText (ws.take start) ++ "::" ++ wordsText (ws.drop (start + length))

/-! ## Names -/

/-- Bytes with the escapes of percent signs undone. -/
def percentDecode : List UInt8 → List UInt8
  | 0x25 :: a :: b :: rest =>
    match hexValue? (Char.ofNat a.toNat), hexValue? (Char.ofNat b.toNat) with
    | some x, some y => UInt8.ofNat (x * 16 + y) :: percentDecode rest
    | _, _ => 0x25 :: percentDecode (a :: b :: rest)
  | b :: rest => b :: percentDecode rest
  | [] => []

/-- The domain name that a text with escapes writes. -/
def readDomain (cs : List Char) : Except UrlError (List Char) :=
  match (RawText.ofBytes (percentDecode (utf8Bytes (String.ofList cs)))).toChars? >>= asciiDomain? with
  | some name => .ok name
  | none => .error .invalidDomain

/-- The text of a host in a special scheme. -/
def readHost (cs : List Char) : Except UrlError String := do
  match cs with
  | '[' :: rest =>
    if cs.getLast? = some ']' then
      let words ← readIpv6 rest.dropLast
      return "[" ++ ipv6Text words ++ "]"
    else throw .invalidIpv6
  | _ =>
    let name ← readDomain cs
    if name.isEmpty then throw .emptyHost
    if endsInNumber name then return ipv4Text (← readIpv4 name)
    return String.ofList name

/-- A character that no host of any scheme holds. -/
def isForbiddenAnywhere (c : Char) : Bool :=
  c = '\x00' || "\t\n\r #/:<>?@[\\]^|".toList.contains c

end ChainRelay.Net
