import ChainRelay.Proofs.Json.Reading
import ChainRelay.Proofs.Json.Syntax

/-! # The edges of texts

The byte with which a value of the grammar begins, and the bytes that stand behind a value: none of them goes
on with a number.
-/

namespace ChainRelay.Json

variable {text body rest : List UInt8}

/-! ## The first byte -/

theorem Unsigned.head (unsigned : Unsigned text) : ∃ b more, text = b :: more ∧ isDigit b = true := by
  cases unsigned with
  | zero => exact ⟨_, _, rfl, rfl⟩
  | digits _ digits => exact ⟨_, _, rfl, digits.2 _ List.mem_cons_self⟩

theorem NumberText.head (number : NumberText text) : ∃ b more, text = b :: more ∧ (b = 0x2D ∨ isDigit b = true) := by
  cases number with
  | negative => exact ⟨_, _, rfl, .inl rfl⟩
  | plain unsigned =>
      obtain ⟨b, more, split, digit⟩ := unsigned.head
      exact ⟨b, more, split, .inr digit⟩

/-- A value begins with a byte that is no blank and does not end a list. -/
theorem ValueText.head (value : ValueText text) : ∃ b more, text = b :: more ∧ isJsonBlank b = false ∧ b ≠ 0x5D := by
  cases value with
  | null | yes | no | string | array | object => exact ⟨_, _, rfl, by decide, by decide⟩
  | number number =>
      obtain ⟨b, more, rfl, rfl | digit⟩ := number.head
      · exact ⟨_, _, rfl, by decide, by decide⟩
      · refine ⟨b, more, rfl, token_of_isDigit digit, ?_⟩
        rintro rfl
        cases digit

/-! ## Behind digits -/

theorem noDigit_exponent (exponent : Exponent text) (ends : EndsNumber rest) :
    ∀ c, (text ++ rest).head? = some c → isDigit c = false := by
  intro c head
  cases exponent with
  | none => exact (ends c head).1
  | some letter =>
      cases head
      rcases letter with rfl | rfl <;> rfl

theorem noDigit_numberEnd (more : NumberEnd text) (ends : EndsNumber rest) :
    ∀ c, (text ++ rest).head? = some c → isDigit c = false := by
  intro c head
  cases more with
  | whole exponent => exact noDigit_exponent exponent ends c head
  | decimals =>
      cases head
      rfl

/-! ## Behind a value -/

theorem Lead.endsNumber {front : List UInt8} (lead : Lead false front) : EndsNumber (front ++ rest) := by
  obtain ⟨before, after, blank, -, rfl⟩ := lead
  simp only [comma, Bool.false_eq_true, if_false, List.append_assoc, List.singleton_append]
  exact endsNumber_token blank (.inl rfl) _

theorem ItemsText.endsNumber (items : ItemsText false body) : EndsNumber (body ++ 0x5D :: rest) := by
  cases items with
  | done blank => exact endsNumber_token blank (.inr (.inl rfl)) rest
  | next lead =>
      simp only [List.append_assoc]
      exact lead.endsNumber

theorem MembersText.endsNumber (members : MembersText false body) : EndsNumber (body ++ 0x7D :: rest) := by
  cases members with
  | done blank => exact endsNumber_token blank (.inr (.inr rfl)) rest
  | next lead =>
      simp only [List.append_assoc]
      exact lead.endsNumber

end ChainRelay.Json
