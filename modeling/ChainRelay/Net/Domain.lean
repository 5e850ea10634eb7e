import ChainRelay.Net.Punycode

/-! # Domain names

A name is compared in one form: small letters, narrow figures, nothing invisible. Labels in that
form are written in ASCII, those with other characters through their gaps. -/

namespace ChainRelay.Net

/-- Split a text at a character. -/
def splitAt (c : Char) (cs : List Char) : List (List Char) :=
  cs.foldr (fun x parts =>
    if x = c then [] :: parts
    else
      match parts with
      | head :: rest => (x :: head) :: rest
      | [] => [[x]]) [[]]

/-- Characters whose forms lie at one distance: the first, the last, and the form of the first. -/
def shiftedForms : List (Nat × Nat × Nat) :=
  [(0xC0, 0xD6, 0xE0), (0xD8, 0xDE, 0xF8), (0x388, 0x38A, 0x3AD), (0x38E, 0x38F, 0x3CD),
   (0x391, 0x3A1, 0x3B1), (0x3A3, 0x3AB, 0x3C3), (0x400, 0x40F, 0x450), (0x410, 0x42F, 0x430),
   (0x531, 0x556, 0x561), (0x2074, 0x2079, 0x34), (0x2080, 0x2089, 0x30), (0x2460, 0x2468, 0x31),
   (0x24B6, 0x24CF, 0x61), (0x24D0, 0x24E9, 0x61), (0xFF01, 0xFF20, 0x21), (0xFF21, 0xFF3A, 0x61),
   (0xFF3B, 0xFF5E, 0x5B)]

/-- Ranges in which the small letter follows its capital. -/
def pairedLetters : List (Nat × Nat) :=
  [(0x100, 0x12F), (0x134, 0x137), (0x139, 0x13E), (0x141, 0x148), (0x14A, 0x177), (0x179, 0x17E),
   (0x460, 0x481), (0x48A, 0x4BF), (0x4D0, 0x52F), (0x1E00, 0x1E95), (0x1EA0, 0x1EFF)]

/-- Forms that follow no range. -/
def singleForms : List (Nat × String) :=
  [(0xA0, " "), (0xAA, "a"), (0xB2, "2"), (0xB3, "3"), (0xB5, "μ"), (0xB9, "1"), (0xBA, "o"),
   (0x130, "i̇"), (0x132, "ij"), (0x133, "ij"), (0x178, "ÿ"), (0x17F, "s"), (0x386, "ά"),
   (0x38C, "ό"), (0x1E9E, "ß"), (0x2070, "0"), (0x2122, "tm"), (0x2126, "ω"), (0x212A, "k"),
   (0x212B, "å"), (0x3000, " "), (0x3002, "."), (0xFB00, "ff"), (0xFB01, "fi"), (0xFB02, "fl"),
   (0xFF61, ".")]

/-- A character that is left out of names. -/
def isInvisible (c : Char) : Bool :=
  let n := c.toNat
  n = 0xAD || n = 0x34F || n = 0x200B || n = 0x2060 || n = 0x2064 || n = 0xFEFF ||
    (0xFE00 ≤ n && n ≤ 0xFE0F)

/-- The form of a character in domain names. -/
def domainForm (c : Char) : List Char :=
  let n := c.toNat
  if n < 0x80 then [c.toLower]
  else if isInvisible c then []
  else if 0x2000 ≤ n ∧ n ≤ 0x200A then [' ']
  else
    match shiftedForms.find? (fun (first, last, _) => first ≤ n && n ≤ last) with
    | some (first, _, form) => [Char.ofNat (form + (n - first))]
    | none =>
      match pairedLetters.find? (fun (first, last) => first ≤ n && n ≤ last) with
      | some (first, _) => [if (n - first) % 2 = 0 then Char.ofNat (n + 1) else c]
      | none =>
        match singleForms.lookup n with
        | some form => form.toList
        | none => [c]

/-- A character that no domain name holds: blanks, marks of addresses, controls and characters for
private use. -/
def isForbidden (c : Char) : Bool :=
  let n := c.toNat
  n ≤ 0x20 || (0x7F ≤ n && n < 0xA0) || "%#/:<>?@[\\]^|".toList.contains c ||
    (0x200C ≤ n && n ≤ 0x200F) || (0x2024 ≤ n && n ≤ 0x202E && n != 0x2027) ||
    (0xE000 ≤ n && n ≤ 0xF8FF) || (0xFFF9 ≤ n && n ≤ 0xFFFF) || 0xE0000 ≤ n

/-- A mark that stands on the letter before it. -/
def isCombining (c : Char) : Bool :=
  0x300 ≤ c.toNat && c.toNat ≤ 0x36F

/-- A label may hold these characters: they are in the form of names, and the first is no mark on
the letter before it. -/
def isLabel (label : List Char) : Bool :=
  !label.any isForbidden && label.flatMap domainForm = label && !(label.head?.any isCombining)

/-- A label in ASCII; one that already stands for other characters has to hold a label of them. -/
def asciiLabel? (label : List Char) : Option (List Char) :=
  let other (c : Char) : Bool := 128 ≤ c.toNat
  if label.take 4 = "xn--".toList then do
    let decoded ← Punycode.decode? (label.drop 4)
    if decoded.any other && isLabel decoded then some label else none
  else if label.any other then
    if isLabel label then some ("xn--".toList ++ Punycode.encode label) else none
  else some label

/-- A domain name in ASCII. -/
def asciiDomain? (cs : List Char) : Option (List Char) := do
  let name := cs.flatMap domainForm
  if name.any isForbidden then none
  let labels ← (splitAt '.' name).mapM asciiLabel?
  return ['.'].intercalate labels

end ChainRelay.Net
