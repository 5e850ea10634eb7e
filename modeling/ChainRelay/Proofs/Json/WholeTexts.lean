import Mathlib.Data.List.Induction
import ChainRelay.Proofs.Json.Edges
import ChainRelay.Proofs.Json.Refusing

/-! # The texts of whole numbers

A number is read as a whole number exactly if it is written as whole numbers are printed: with neither a
point nor an exponent, of a size that fits 64 bits. The grammar has no needless zeros in front; a zero with
a sign is a double.
-/

namespace ChainRelay.Json

open Reader

variable {b : UInt8} {ds text rest left : List UInt8} {negative : Bool} {n : Int}

/-! ## Digits -/

theorem digitBytes_push {m d : Nat} (positive : 0 < m) (small : d < 10) :
    digitBytes (m * 10 + d) = digitBytes m ++ digitBytes d := by
  have front : (m * 10 + d) / 10 = m := by omega
  have last : (m * 10 + d) % 10 = d := by omega
  rw [digitBytes, Nat.toDigits_of_base_le (by decide) (by omega), front, last, List.map_append, digitBytes, digitBytes,
    Nat.toDigits_of_lt_base small]

theorem digitBytes_digitValue (digit : isDigit b = true) : digitValue b < 10 ∧ digitBytes (digitValue b) = [b] := by
  have bounds : 48 ≤ b.toNat ∧ b.toNat ≤ 57 := by simpa [isDigit, UInt8.le_iff_toNat_le] using digit
  have small : digitValue b < 10 := by
    unfold digitValue
    omega
  have char : ∀ d < 10, UInt8.ofNat (d.digitChar).toNat = UInt8.ofNat (d + 48) := by decide
  refine ⟨small, ?_⟩
  rw [digitBytes, Nat.toDigits_of_lt_base small, List.map_singleton, char _ small]
  have back : digitValue b + 48 = b.toNat := by
    unfold digitValue
    omega
  rw [back, UInt8.ofNat_toNat]

/-- Digits without a zero in front are those of the number that they write. -/
theorem digitBytes_digitsValue (nonzero : b ≠ 0x30) (digits : Digits (b :: ds)) :
    digitBytes (digitsValue 0 ((b :: ds).map digitValue)) = b :: ds := by
  obtain ⟨here, others⟩ := List.forall_mem_cons.mp digits.2
  have positive : 0 < digitValue b := by
    have zero : b.toNat ≠ 48 := fun same => nonzero (UInt8.toNat_inj.mp same)
    have bounds : 48 ≤ b.toNat ∧ b.toNat ≤ 57 := by simpa [isDigit, UInt8.le_iff_toNat_le] using here
    unfold digitValue
    omega
  clear digits
  induction ds using List.reverseRecOn with
  | nil => simpa [digitsValue] using (digitBytes_digitValue here).2
  | append_singleton front d ih =>
      obtain ⟨before, last⟩ := List.forall_mem_append.mp others
      obtain ⟨small, same⟩ := digitBytes_digitValue (last d List.mem_cons_self)
      have value : digitsValue 0 ((b :: (front ++ [d])).map digitValue) =
          digitsValue 0 ((b :: front).map digitValue) * 10 + digitValue d := by
        simp [digitsValue]
      have least : 0 < digitsValue 0 ((b :: front).map digitValue) := by
        refine Nat.lt_of_lt_of_le positive ?_
        simpa [digitsValue] using le_digitsValue (digitValue b) (front.map digitValue)
      rw [value, digitBytes_push least small, same, ih before, List.cons_append]

/-- Digits that are all appended write what is appended. -/
theorem digitsValue_of_absorb {start : Nat} {digits : List Nat} (all : (absorb start digits).2 = 0) :
    (absorb start digits).1 = digitsValue start digits := by
  induction digits generalizing start with
  | nil => rfl
  | cons d more ih =>
      unfold absorb at all ⊢
      split at all
      · rename_i fits
        rw [if_pos fits, ih all]
        rfl
      · cases all

/-! ## Numbers -/

theorem not_isFloat_int {fits} : ¬(Number.int n fits).IsFloat := by
  rintro ⟨x, same⟩
  cases same

/-- Only digits alone are a whole number. -/
theorem int_of_readAfterDigits {significand dropped : Nat} {fits} (more : NumberEnd text) (ends : EndsNumber rest)
    (read : readAfterDigits negative significand dropped (text ++ rest) = .ok (.int n fits, left)) :
    text = [] ∧ dropped = 0 ∧ wholeNumber negative significand = .int n fits ∧ left = rest := by
  have marked {mark : UInt8} {after : List UInt8} (pointed : mark = 0x2E ∨ mark = 0x65 ∨ mark = 0x45)
      (read : readAfterDigits negative significand dropped (mark :: after) = .ok (.int n fits, left)) : False :=
    not_isFloat_int (readAfterDigits_pointed pointed read)
  cases more with
  | decimals => exact (marked (.inl rfl) read).elim
  | whole exponent =>
      cases exponent with
      | some letter => exact (marked (.inr letter) read).elim
      | none =>
          rw [List.nil_append] at read
          by_cases all : dropped = 0
          · subst all
            rw [readAfterDigits_ends ends] at read
            obtain ⟨whole, rfl⟩ := Prod.mk.inj (Except.ok.inj read)
            exact ⟨rfl, rfl, whole, rfl⟩
          -- Digits that found no room in 64 bits make a double.
          · have float : readAfterDigits negative significand dropped rest =
                readFloat negative significand dropped rest := by
              cases rest with
              | nil => simp only [readAfterDigits, run_peek, List.head?_nil, all, if_false]
              | cons b rest =>
                  obtain ⟨-, point, lower, upper⟩ := ends b rfl
                  simp only [readAfterDigits, run_peek, List.head?_cons, point, lower, upper, or_self, if_false, all]
            rw [float] at read
            exact (not_isFloat_int (readFloat_gives _ _ _ _ _ _ read)).elim

theorem int_of_readUnsigned {fits} (unsigned : Unsigned text) (ends : EndsNumber rest)
    (read : readUnsigned negative (text ++ rest) = .ok (.int n fits, left)) :
    ∃ m, text = digitBytes m ∧ wholeNumber negative m = .int n fits ∧ left = rest := by
  cases unsigned with
  | @zero more numberEnd =>
      simp only [readUnsigned, List.cons_append, run_peek, List.head?_cons, if_true, run_advance] at read
      have after : readAfterDigits negative 0 0 (more ++ rest) = .ok (.int n fits, left) := by
        cases head : (more ++ rest).head? with
        | none => simpa only [head] using read
        | some c => simpa only [head, noDigit_numberEnd numberEnd ends c head, Bool.false_eq_true, if_false] using read
      obtain ⟨rfl, -, whole, rfl⟩ := int_of_readAfterDigits numberEnd ends after
      exact ⟨0, rfl, whole, rfl⟩
  | @digits b ds more nonzero digits numberEnd =>
      have digit : isDigit b = true := digits.2 b List.mem_cons_self
      have taken := readDigits_append digits.2 (noDigit_numberEnd numberEnd ends)
      simp only [readUnsigned, List.cons_append, List.append_assoc, run_peek, List.head?_cons, nonzero, if_false, digit,
        if_true] at read taken
      rw [run_bind taken] at read
      obtain ⟨rfl, all, whole, rfl⟩ := int_of_readAfterDigits numberEnd ends read
      rw [digitsValue_of_absorb all] at whole
      exact ⟨_, by rw [digitBytes_digitsValue nonzero digits, List.append_nil], whole, rfl⟩

theorem intText_of_wholeNumber {m : Nat} {fits} (whole : wholeNumber negative m = .int n fits) :
    Number.intText n = if negative then "-" ++ Nat.repr m else Nat.repr m := by
  unfold wholeNumber at whole
  split at whole
  · rename_i minus
    split at whole
    · rename_i range
      cases whole
      have below : -(m : Int) < 0 := by omega
      simp only [Number.intText, below, if_true, minus, Int.natAbs_neg, Int.natAbs_natCast]
    · cases whole
  · rename_i plus
    split at whole
    · cases whole
      have above : ¬(m : Int) < 0 := by omega
      simp only [Number.intText, above, plus, if_false, Int.natAbs_natCast, Bool.false_eq_true]
    · cases whole

/-- A number is read as a whole number if it is written as that is printed, and in no other way. -/
theorem readNumber_int_iff {fits} (number : NumberText text) (ends : EndsNumber rest) :
    readNumber (text ++ rest) = .ok (.int n fits, left) ↔ text = utf8Bytes (Number.intText n) ∧ left = rest := by
  constructor
  · intro read
    cases number with
    | negative unsigned =>
        rw [readNumber, run_peek, if_pos (by rfl), List.cons_append, run_advance] at read
        obtain ⟨m, rfl, whole, rfl⟩ := int_of_readUnsigned unsigned ends read
        have dash : utf8Bytes "-" = [0x2D] := by decide
        rw [intText_of_wholeNumber whole, if_pos rfl, utf8Bytes_append, dash, utf8Bytes_repr]
        exact ⟨rfl, rfl⟩
    | plain unsigned =>
        obtain ⟨b, more, rfl, digit⟩ := unsigned.head
        have noDash : b ≠ 0x2D := by
          rintro rfl
          cases digit
        rw [readNumber, run_peek, if_neg (by simpa using noDash)] at read
        obtain ⟨m, split, whole, rfl⟩ := int_of_readUnsigned unsigned ends read
        rw [intText_of_wholeNumber whole, if_neg Bool.false_ne_true, utf8Bytes_repr]
        exact ⟨split, rfl⟩
  · rintro ⟨rfl, rfl⟩
    exact readNumber_intText fits ends

end ChainRelay.Json
