import ChainRelay.Text.Blank

/-! # Text with stray bytes

Arguments, environment values and file names are bytes that are nearly always UTF-8. A `RawText`
keeps the characters as characters and every byte that belongs to none as itself, so nothing is
lost and ASCII structure (dashes, `=`, slashes) can be read off directly. -/

namespace ChainRelay

/-- The bytes of a text in UTF-8. -/
def utf8Bytes (s : String) : List UInt8 :=
  s.toUTF8.data.toList

/-- One unit of raw text: a character, or a byte that is part of no character. -/
inductive RawUnit where
  | char (c : Char)
  | byte (b : UInt8)
  deriving DecidableEq, Repr

/-- Bytes read as UTF-8 as far as possible. -/
abbrev RawText := List RawUnit

/-- A byte of the form `10xxxxxx`. -/
def isContinuation (b : UInt8) : Bool :=
  0x80 ≤ b && b ≤ 0xBF

/-- The least and greatest byte that may follow `lead` in a sequence of three or four bytes. -/
def secondByteRange (lead : UInt8) : UInt8 × UInt8 :=
  if lead = 0xE0 then (0xA0, 0xBF)
  else if lead = 0xED then (0x80, 0x9F)
  else if lead = 0xF0 then (0x90, 0xBF)
  else if lead = 0xF4 then (0x80, 0x8F)
  else (0x80, 0xBF)

/-- The byte `b` may follow `lead` in a sequence of three or four bytes. -/
def mayFollow (lead b : UInt8) : Bool :=
  let (low, high) := secondByteRange lead
  low ≤ b && b ≤ high

/-- The character at the start of `lead :: rest`, with the number of bytes of `rest` it takes. -/
def leadingChar? (lead : UInt8) (rest : List UInt8) : Option (Char × Nat) :=
  let bits (b : UInt8) : Nat := b.toNat % 64
  if lead < 0x80 then some (Char.ofNat lead.toNat, 0)
  else if 0xC2 ≤ lead && lead ≤ 0xDF then
    match rest with
    | b :: _ =>
      if isContinuation b then some (Char.ofNat ((lead.toNat - 0xC0) * 64 + bits b), 1) else none
    | [] => none
  else if 0xE0 ≤ lead && lead ≤ 0xEF then
    match rest with
    | b :: c :: _ =>
      if mayFollow lead b && isContinuation c then
        some (Char.ofNat ((lead.toNat - 0xE0) * 4096 + bits b * 64 + bits c), 2)
      else none
    | _ => none
  else if 0xF0 ≤ lead && lead ≤ 0xF4 then
    match rest with
    | b :: c :: d :: _ =>
      if mayFollow lead b && isContinuation c && isContinuation d then
        some (Char.ofNat ((lead.toNat - 0xF0) * 262144 + bits b * 4096 + bits c * 64 + bits d), 3)
      else none
    | _ => none
  else none

namespace RawText

/-- The text as raw text. -/
def ofString (s : String) : RawText :=
  s.toList.map .char

/-- Read bytes, leaving out the first `skip` of them. -/
def ofBytesAfter : (skip : Nat) → List UInt8 → RawText
  | _, [] => []
  | skip + 1, _ :: rest => ofBytesAfter skip rest
  | 0, b :: rest =>
    match leadingChar? b rest with
    | some (c, taken) => .char c :: ofBytesAfter taken rest
    | none => .byte b :: ofBytesAfter 0 rest

/-- Read bytes as UTF-8 as far as possible. -/
def ofBytes (bytes : List UInt8) : RawText :=
  ofBytesAfter 0 bytes

/-- The bytes of a raw text. -/
def toBytes (t : RawText) : List UInt8 :=
  t.flatMap fun
    | .char c => String.utf8EncodeChar c
    | .byte b => [b]

/-- The characters of a raw text that has no stray byte. -/
def toChars? (t : RawText) : Option (List Char) :=
  t.mapM fun
    | .char c => some c
    | .byte _ => none

/-- The text, if no byte is stray. -/
def toString? (t : RawText) : Option String :=
  t.toChars?.map String.ofList

/-- How many of the units after the stray byte `lead` complete a longer start of a sequence. -/
def subpart (lead : UInt8) : RawText → Nat
  | .byte b :: rest =>
    if 0xE0 ≤ lead && lead ≤ 0xF4 && mayFollow lead b then
      match rest with
      | .byte c :: _ => if 0xF0 ≤ lead && isContinuation c then 2 else 1
      | _ => 1
    else 0
  | _ => 0

/-- The characters for display, leaving out the first `skip` units: every longest start of a broken
sequence becomes one replacement character. -/
def displayAfter : (skip : Nat) → RawText → List Char
  | _, [] => []
  | skip + 1, _ :: rest => displayAfter skip rest
  | 0, .char c :: rest => c :: displayAfter 0 rest
  | 0, .byte b :: rest => '\uFFFD' :: displayAfter (subpart b rest) rest

/-- The text for display. -/
def display (t : RawText) : String :=
  String.ofList (displayAfter 0 t)

/-- Split at the first occurrence of `c`. -/
def splitOnce (c : Char) : RawText → Option (RawText × RawText)
  | [] => none
  | u :: rest =>
    if u = .char c then some ([], rest) else (splitOnce c rest).map fun (a, b) => (u :: a, b)

@[simp] theorem toChars?_ofString (s : String) : (ofString s).toChars? = some s.toList := by
  unfold ofString toChars?
  induction s.toList with
  | nil => rfl
  | cons c r ih => simp [ih]

@[simp] theorem toString?_ofString (s : String) : (ofString s).toString? = some s := by
  simp [toString?]

theorem eq_map_of_toChars? {t : RawText} {cs : List Char} (chars : t.toChars? = some cs) : t = cs.map .char := by
  unfold toChars? at chars
  induction t generalizing cs with
  | nil => simp_all
  | cons u rest ih =>
      cases u with
      | byte b => simp at chars
      | char c =>
          simp only [List.mapM_cons, Option.pure_def, Option.bind_eq_bind, Option.bind_some,
            Option.bind_eq_some_iff, Option.some.injEq] at chars
          obtain ⟨others, found, rfl⟩ := chars
          rw [List.map_cons, ← ih found]

theorem toString?_eq_some_iff {t : RawText} {s : String} : t.toString? = some s ↔ t = ofString s := by
  constructor
  · intro text
    obtain ⟨cs, chars, rfl⟩ := Option.map_eq_some_iff.mp text
    rw [ofString, String.toList_ofList]
    exact eq_map_of_toChars? chars
  · rintro rfl
    exact toString?_ofString s

end RawText

end ChainRelay
