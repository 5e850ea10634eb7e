import ChainRelay.Proofs.Json.Omitting
import ChainRelay.Proofs.Json.Refusing

/-! # What readers make of values

On the values of the grammar a reader is described by a relation between texts and results: it reads a text
as a result exactly if they are related, with any blanks before the text and behind it anything that does not
go on with a number.
-/

namespace ChainRelay.Json

open Reader

variable {text : List UInt8}

/-- On values the reader reads what the relation says. -/
def Reader.Decodes (r : Reader α) (D : List UInt8 → α → Prop) : Prop :=
  ∀ ⦃ws text rest : List UInt8⦄, Blank ws → ValueText text → EndsNumber rest → ∀ {result : α × List UInt8},
    r (ws ++ text ++ rest) = .ok result ↔ D text result.1 ∧ result.2 = rest

/-- The text of `null`. -/
def nullText : List UInt8 :=
  [0x6E, 0x75, 0x6C, 0x6C]

/-- What an optional value is read as: nothing for `null`. -/
def OptionalText (D : List UInt8 → α → Prop) (text : List UInt8) (o : Option α) : Prop :=
  (text = nullText ∧ o = none) ∨ (text ≠ nullText ∧ ∃ a, D text a ∧ o = some a)

namespace Reader

variable {r : Reader α} {D : List UInt8 → α → Prop}

theorem Decodes.congr (decodes : r.Decodes D) {D' : List UInt8 → α → Prop} (same : ∀ text a, D text a ↔ D' text a) :
    r.Decodes D' := by
  intro ws text rest blank value ends result
  rw [decodes blank value ends, same]

/-- A value is read in one way. -/
theorem Decodes.unique (decodes : r.Decodes D) {a b : α} (value : ValueText text) (first : D text a)
    (second : D text b) : a = b := by
  have read {a : α} (holds : D text a) : r ([] ++ text ++ []) = .ok (a, []) :=
    (decodes blank_nil value endsNumber_nil).mpr ⟨holds, rfl⟩
  exact congrArg Prod.fst (Except.ok.inj ((read first).symm.trans (read second)))

theorem Decodes.then_pure (decodes : r.Decodes D) (f : α → β) :
    (r >>= fun a => pure (f a)).Decodes fun text b => ∃ a, D text a ∧ b = f a := by
  intro ws text rest blank value ends ⟨b, left⟩
  rw [bind_eq_ok_iff]
  constructor
  · rintro ⟨a, middle, first, second⟩
    obtain ⟨holds, rfl⟩ := (decodes blank value ends).mp first
    cases second
    exact ⟨⟨a, holds, rfl⟩, rfl⟩
  · rintro ⟨⟨a, holds, rfl⟩, rfl⟩
    exact ⟨a, _, (decodes blank value ends).mpr ⟨holds, rfl⟩, rfl⟩

theorem below_eq_ok_iff {step : Step} {bytes : List UInt8} {result : α × List UInt8} :
    below step r bytes = .ok result ↔ r bytes = .ok result := by
  unfold below
  cases r bytes <;> simp

theorem skipValue_decodes : skipValue.Decodes fun _ _ => True := by
  intro ws text rest blank value ends result
  rw [skipValue_text value blank ends, Except.ok.injEq, true_and, Prod.ext_iff]
  exact ⟨fun same => same.2.symm, fun same => ⟨rfl, same.symm⟩⟩

end Reader

/-! ## Strings -/

theorem StringLiteral.head {s : String} (literal : StringLiteral text s) : text.head? = some 0x22 := by
  obtain ⟨rest, rfl, -⟩ := literal
  rfl

theorem ValueText.string_of_head (value : ValueText text) (quote : text.head? = some 0x22) :
    ∃ rest, text = 0x22 :: rest ∧ StringRest rest := by
  cases value with
  | string string => exact ⟨_, rfl, string⟩
  | number number =>
      obtain ⟨b, more, rfl, minus | digit⟩ := number.head <;> cases quote
      · cases minus
      · cases digit
  | null | yes | no | array | object => cases quote

theorem readText_decodes : readText.Decodes StringLiteral := by
  intro ws text rest blank value ends result
  obtain ⟨b, more, split, token, -⟩ := value.head
  rw [List.append_assoc, split, List.cons_append, readText, run_bind (firstOfValue_token blank token _)]
  split
  · rename_i quote
    obtain ⟨body, same, string⟩ := value.string_of_head (by rw [split, quote]; rfl)
    obtain ⟨rfl, rfl⟩ := List.cons.inj (split.symm.trans same)
    rw [run_advance, readString_iff string]
    refine and_congr_left fun _ => ⟨fun denotes => ⟨more, rfl, denotes⟩, ?_⟩
    rintro ⟨_, ⟨⟩, denotes⟩
    exact denotes
  · rename_i other
    exact iff_of_false not_failOnNext fun both => other (Option.some.inj both.1.head)

/-! ## Optional values -/

theorem ValueText.null_of_head (value : ValueText text) (letter : text.head? = some 0x6E) : text = nullText := by
  cases value with
  | null => rfl
  | number number =>
      obtain ⟨b, more, rfl, minus | digit⟩ := number.head <;> cases letter
      · cases minus
      · cases digit
  | yes | no | string | array | object => cases letter

theorem readOptional_decodes {r : Reader α} {D : List UInt8 → α → Prop} (decodes : r.Decodes D) :
    (readOptional r).Decodes (OptionalText D) := by
  intro ws text rest blank value ends ⟨o, left⟩
  obtain ⟨b, more, split, token, -⟩ := value.head
  rw [List.append_assoc, split, List.cons_append, readOptional, run_nextToken blank token, ← List.cons_append, ← split]
  by_cases letter : b = 0x6E
  · obtain rfl := value.null_of_head (by rw [split, letter]; rfl)
    have word := readWord_text [0x75, 0x6C, 0x6C] rest
    have read : (do
        advance
        readWord [0x75, 0x6C, 0x6C]
        return none : Reader (Option α)) (nullText ++ rest) = .ok (none, rest) := by
      rw [nullText, List.cons_append, run_advance, run_bind word]
      rfl
    rw [if_pos (by rw [letter]; rfl), read]
    simp [OptionalText, eq_comm]
  · have other : text ≠ nullText := by
      rintro rfl
      cases split
      exact letter rfl
    have mapped : (r >>= fun a => pure (some a)) ([] ++ text ++ rest) = .ok (o, left) ↔ _ :=
      decodes.then_pure some blank_nil value ends
    rw [if_neg (by simpa using letter), ← bind_pure_comp]
    simpa only [OptionalText, other, false_and, false_or, ne_eq, not_false_eq_true, true_and, List.nil_append]
      using mapped

end ChainRelay.Json
