import ChainRelay.Proofs.Json.Grammar

/-! # The syntax of JSON documents

The grammar of all JSON texts, byte for byte and whoever wrote them: numbers of any size, strings with any
escapes, members of any names in any order. Only the form of a string matters here: whether its bytes are
characters, and its surrogates paired, is left to those who read it.
-/

namespace ChainRelay.Json

/-! ## Numbers -/

/-- One or more decimal digits. -/
def Digits (bytes : List UInt8) : Prop :=
  bytes ≠ [] ∧ ∀ b ∈ bytes, isDigit b = true

/-- The digits of an exponent, with or without a sign. -/
inductive ExponentDigits : List UInt8 → Prop where
  | plain {ds : List UInt8} (digits : Digits ds) : ExponentDigits ds
  | signed {sign : UInt8} {ds : List UInt8} (either : sign = 0x2B ∨ sign = 0x2D) (digits : Digits ds) :
      ExponentDigits (sign :: ds)

/-- An exponent, which may be left out. -/
inductive Exponent : List UInt8 → Prop where
  | none : Exponent []
  | some {e : UInt8} {ds : List UInt8} (letter : e = 0x65 ∨ e = 0x45) (digits : ExponentDigits ds) :
      Exponent (e :: ds)

/-- Decimals and an exponent, each of which may be left out. -/
inductive NumberEnd : List UInt8 → Prop where
  | whole {text : List UInt8} (exponent : Exponent text) : NumberEnd text
  | decimals {ds text : List UInt8} (digits : Digits ds) (exponent : Exponent text) :
      NumberEnd (0x2E :: ds ++ text)

/-- A number without a sign; a zero in front is its only digit. -/
inductive Unsigned : List UInt8 → Prop where
  | zero {text : List UInt8} (more : NumberEnd text) : Unsigned (0x30 :: text)
  | digits {b : UInt8} {ds text : List UInt8} (nonzero : b ≠ 0x30) (digits : Digits (b :: ds))
      (more : NumberEnd text) : Unsigned (b :: ds ++ text)

/-- A number. -/
inductive NumberText : List UInt8 → Prop where
  | plain {text : List UInt8} (unsigned : Unsigned text) : NumberText text
  | negative {text : List UInt8} (unsigned : Unsigned text) : NumberText (0x2D :: text)

/-! ## Strings -/

/-- What may follow a backslash. -/
inductive Escape : List UInt8 → Prop where
  | short {b : UInt8} (known : b ∈ [0x22, 0x5C, 0x2F, 0x62, 0x66, 0x6E, 0x72, 0x74]) : Escape [b]
  | unicode {a b c d : UInt8} {n : Nat} (quad : hexQuad a b c d = some n) : Escape [0x75, a, b, c, d]

/-- A string after its opening quote, with its closing quote. -/
inductive StringRest : List UInt8 → Prop where
  | close : StringRest [0x22]
  | plain {b : UInt8} {rest : List UInt8} (quote : b ≠ 0x22) (slash : b ≠ 0x5C) (seen : ¬b < 0x20)
      (more : StringRest rest) : StringRest (b :: rest)
  | escape {text rest : List UInt8} (escape : Escape text) (more : StringRest rest) :
      StringRest (0x5C :: text ++ rest)

theorem StringRest.ne_nil {text : List UInt8} (string : StringRest text) : text ≠ [] := by
  cases string with
  | close => exact List.cons_ne_nil _ _
  | plain => exact List.cons_ne_nil _ _
  | escape => exact List.cons_ne_nil _ _

/-! ## Values -/

/-- What stands before an item: a comma, unless it is the first, with blanks around it. -/
def Lead (first : Bool) (bytes : List UInt8) : Prop :=
  ∃ before after, Blank before ∧ Blank after ∧ bytes = before ++ comma first ++ after

/-- A colon with blanks around it. -/
def Colon (bytes : List UInt8) : Prop :=
  ∃ before after, Blank before ∧ Blank after ∧ bytes = before ++ 0x3A :: after

mutual

/-- A value, without blanks around it. -/
inductive ValueText : List UInt8 → Prop where
  | null : ValueText [0x6E, 0x75, 0x6C, 0x6C]
  | yes : ValueText [0x74, 0x72, 0x75, 0x65]
  | no : ValueText [0x66, 0x61, 0x6C, 0x73, 0x65]
  | number {text : List UInt8} (number : NumberText text) : ValueText text
  | string {text : List UInt8} (string : StringRest text) : ValueText (0x22 :: text)
  | array {body : List UInt8} (items : ItemsText true body) : ValueText (0x5B :: body ++ [0x5D])
  | object {body : List UInt8} (members : MembersText true body) : ValueText (0x7B :: body ++ [0x7D])

/-- Items up to the end of their list. -/
inductive ItemsText : (first : Bool) → List UInt8 → Prop where
  | done {first : Bool} {ws : List UInt8} (blank : Blank ws) : ItemsText first ws
  | next {first : Bool} {front text others : List UInt8} (lead : Lead first front) (item : ValueText text)
      (more : ItemsText false others) : ItemsText first (front ++ text ++ others)

/-- Members up to the end of their object. -/
inductive MembersText : (first : Bool) → List UInt8 → Prop where
  | done {first : Bool} {ws : List UInt8} (blank : Blank ws) : MembersText first ws
  | next {first : Bool} {front name gap text others : List UInt8} (lead : Lead first front)
      (named : StringRest name) (colon : Colon gap) (value : ValueText text)
      (more : MembersText false others) :
      MembersText first (front ++ 0x22 :: name ++ gap ++ text ++ others)

end

/-- A list or an object, without blanks around it. -/
inductive ContainerText : List UInt8 → Prop where
  | array {body : List UInt8} (items : ItemsText true body) : ContainerText (0x5B :: body ++ [0x5D])
  | object {body : List UInt8} (members : MembersText true body) : ContainerText (0x7B :: body ++ [0x7D])

/-- A text of the language and the blanks before it. -/
def Spaced (L : List UInt8 → Prop) (bytes : List UInt8) : Prop :=
  ∃ ws text, Blank ws ∧ L text ∧ bytes = ws ++ text

/-- One value and nothing but blanks around it. -/
def Document (bytes : List UInt8) : Prop :=
  ∃ text ws, Spaced ValueText text ∧ Blank ws ∧ bytes = text ++ ws

/-! ## Blanks and empty texts -/

theorem Blank.append {ws ws' : List UInt8} (blank : Blank ws) (blank' : Blank ws') : Blank (ws ++ ws') :=
  List.forall_mem_append.mpr ⟨blank, blank'⟩

theorem Lead.append_blank {first : Bool} {front ws : List UInt8} (lead : Lead first front) (blank : Blank ws) :
    Lead first (front ++ ws) := by
  obtain ⟨before, after, blankBefore, blankAfter, rfl⟩ := lead
  exact ⟨before, after ++ ws, blankBefore, blankAfter.append blank, by simp⟩

/-- Blanks may be added in front of the end of a list. -/
theorem ItemsText.append_blank {ws : List UInt8} (blank : Blank ws) :
    ∀ {first : Bool} {body : List UInt8}, ItemsText first body → ItemsText first (body ++ ws)
  | _, _, .done blank' => .done (blank'.append blank)
  | _, _, .next lead item more => by simpa using ItemsText.next lead item (more.append_blank blank)

theorem MembersText.append_blank {ws : List UInt8} (blank : Blank ws) :
    ∀ {first : Bool} {body : List UInt8}, MembersText first body → MembersText first (body ++ ws)
  | _, _, .done blank' => .done (blank'.append blank)
  | _, _, .next lead named colon value more => by
      simpa using MembersText.next lead named colon value (more.append_blank blank)

theorem ItemsText.blank_append {first : Bool} {ws body : List UInt8} (blank : Blank ws)
    (items : ItemsText first body) : ItemsText first (ws ++ body) := by
  cases items with
  | done blank' => exact .done (blank.append blank')
  | next lead item more =>
      obtain ⟨before, after, blankBefore, blankAfter, rfl⟩ := lead
      simpa using ItemsText.next ⟨ws ++ before, after, blank.append blankBefore, blankAfter, rfl⟩ item more

theorem Unsigned.ne_nil {text : List UInt8} (unsigned : Unsigned text) : text ≠ [] := by
  cases unsigned with
  | zero => exact List.cons_ne_nil _ _
  | digits => exact List.cons_ne_nil _ _

theorem ValueText.ne_nil {text : List UInt8} (value : ValueText text) : text ≠ [] := by
  cases value with
  | null => exact List.cons_ne_nil _ _
  | yes => exact List.cons_ne_nil _ _
  | no => exact List.cons_ne_nil _ _
  | number number =>
      cases number with
      | plain unsigned => exact unsigned.ne_nil
      | negative => exact List.cons_ne_nil _ _
  | string => exact List.cons_ne_nil _ _
  | array => exact List.cons_ne_nil _ _
  | object => exact List.cons_ne_nil _ _

theorem ContainerText.value {text : List UInt8} (container : ContainerText text) : ValueText text := by
  cases container with
  | array items => exact .array items
  | object members => exact .object members

theorem Spaced.intro {L : List UInt8 → Prop} {ws text : List UInt8} (blank : Blank ws) (holds : L text) :
    Spaced L (ws ++ text) :=
  ⟨ws, text, blank, holds, rfl⟩

theorem Spaced.mono {L L' : List UInt8 → Prop} (weaker : ∀ text, L text → L' text) {text : List UInt8}
    (spaced : Spaced L text) : Spaced L' text := by
  obtain ⟨ws, text, blank, holds, rfl⟩ := spaced
  exact .intro blank (weaker text holds)

theorem Spaced.blank_append {L : List UInt8 → Prop} {ws text : List UInt8} (blank : Blank ws)
    (spaced : Spaced L text) : Spaced L (ws ++ text) := by
  obtain ⟨ws', text, blank', holds, rfl⟩ := spaced
  exact ⟨ws ++ ws', text, blank.append blank', holds, (List.append_assoc _ _ _).symm⟩

theorem Spaced.ne_nil {text : List UInt8} (spaced : Spaced ValueText text) : text ≠ [] := by
  obtain ⟨ws, text, -, value, rfl⟩ := spaced
  exact List.append_ne_nil_of_right_ne_nil _ value.ne_nil

end ChainRelay.Json
