/-! # Punycode

Labels of domain names in letters, digits and hyphens: the other characters are written as gaps, in
ascending order of characters and then of places, with digits of base 36 whose weights adapt. -/

namespace ChainRelay.Net

namespace Punycode

/-- The character of a digit below 36. -/
def digitChar (d : Nat) : Char :=
  if d < 26 then Char.ofNat (97 + d) else Char.ofNat (22 + d)

/-- The digit of a character. -/
def digitValue? (c : Char) : Option Nat :=
  if 'a' ≤ c ∧ c ≤ 'z' then some (c.toNat - 97)
  else if 'A' ≤ c ∧ c ≤ 'Z' then some (c.toNat - 65)
  else if '0' ≤ c ∧ c ≤ '9' then some (c.toNat - 22)
  else none

/-- The greatest last digit at a place, given the bias. -/
def threshold (place bias : Nat) : Nat :=
  if place ≤ bias then 1 else if bias + 26 ≤ place then 26 else place - bias

/-- Divide a gap down to the range of small ones. -/
def shrink (delta steps : Nat) : Nat × Nat :=
  if 455 < delta then shrink (delta / 35) (steps + 36) else (delta, steps)
termination_by delta
decreasing_by omega

/-- The bias after a gap. -/
def adapt (delta count : Nat) (first : Bool) : Nat :=
  let halved := if first then delta / 700 else delta / 2
  let (small, steps) := shrink (halved + halved / count) 0
  steps + 36 * small / (small + 38)

/-- The digits of a gap; `fuel` bounds their number. -/
def gapDigits (bias : Nat) : (fuel : Nat) → (place gap : Nat) → List Char
  | 0, _, _ => []
  | fuel + 1, place, gap =>
    let t := threshold place bias
    if gap < t then [digitChar gap]
    else digitChar (t + (gap - t) % (36 - t)) :: gapDigits bias fuel (place + 36) ((gap - t) / (36 - t))

/-- The state between two characters. -/
structure State where
  /-- The character that was written last, or the one before the first. -/
  last : Nat
  gap : Nat
  bias : Nat
  /-- How many characters have been written. -/
  count : Nat
  out : List Char

/-- Write the places of one character among all. -/
def writeAll (code : Nat) (first : Nat) : List Nat → State → State
  | [], s => s
  | c :: rest, s =>
    if c < code then writeAll code first rest { s with gap := s.gap + 1 }
    else if c = code then
      let digits := gapDigits s.bias (s.gap + 1) 36 s.gap
      let bias := adapt s.gap (s.count + 1) (s.count == first)
      writeAll code first rest
        { s with gap := 0, bias, count := s.count + 1, out := s.out ++ digits }
    else writeAll code first rest s

/-- A label in letters, digits and hyphens. -/
def encode (label : List Char) : List Char :=
  let basic := label.filter (·.toNat < 128)
  let codes := label.map Char.toNat
  let others := ((codes.filter (128 ≤ ·)).mergeSort (fun a b => decide (a ≤ b))).eraseDups
  let start : State :=
    { last := 128, gap := 0, bias := 72, count := basic.length
      out := if basic.isEmpty then [] else basic ++ ['-'] }
  let write (s : State) (code : Nat) : State :=
    let s := { s with gap := s.gap + (code - s.last) * (s.count + 1) }
    let s := writeAll code basic.length codes s
    { s with gap := s.gap + 1, last := code + 1 }
  (others.foldl write start).out

/-- The characters that the digits of gaps insert. -/
def decodeGaps (bias place weight gap code count : Nat) (first : Bool) (out : List Char) :
    List Char → (index : Nat) → Option (List Char)
  | [], index => if place = 36 ∧ gap = index then some out else none
  | c :: rest, index => do
    let digit ← digitValue? c
    let gap := gap + digit * weight
    let t := threshold place bias
    if digit < t then
      let total := count + 1
      let code := code + gap / total
      let at' := gap % total
      if code < 0x110000 ∧ ¬(0xD800 ≤ code ∧ code ≤ 0xDFFF) then
        let out := out.take at' ++ [Char.ofNat code] ++ out.drop at'
        decodeGaps (adapt (gap - index) total first) 36 1 (at' + 1) code total false out rest (at' + 1)
      else none
    else decodeGaps bias (place + 36) (weight * (36 - t)) gap code count first out rest index

/-- The label that some letters, digits and hyphens write. -/
def decode? (text : List Char) : Option (List Char) :=
  let tail := (text.reverse.takeWhile (· ≠ '-')).reverse
  let basic := text.take (text.length - tail.length - 1)
  let digits := if basic.isEmpty then (if tail.length = text.length then text else tail) else tail
  decodeGaps 72 36 1 0 128 basic.length true basic digits 0

end Punycode

end ChainRelay.Net
