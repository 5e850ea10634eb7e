import ChainRelay.Ethereum.Rpc

/-! # Which texts are quantities

A quantity is `0x` and digits of base sixteen, of either case, that write a word. The reader also takes
a plus between the mark and the digits; that is the only way in which it takes more.
-/

namespace ChainRelay.Ethereum

variable {value n : Nat} {cs : List Char} {s : String}

/-- The number that digits of base sixteen write after those of `value`. -/
def hexNumber (value : Nat) (cs : List Char) : Nat :=
  cs.foldl (fun n c => n * 16 + (hexValue? c).getD 0) value

/-- Digits, at least one, that write a number. -/
def WritesHex (cs : List Char) (n : Nat) : Prop :=
  cs ≠ [] ∧ (∀ c ∈ cs, (hexValue? c).isSome) ∧ hexNumber 0 cs = n

/-- The mark and digits that write a number. -/
def Quantity (s : String) (n : Nat) : Prop :=
  ∃ digits, s = "0x" ++ String.ofList digits ∧ WritesHex digits n

/-- The mark, a plus and digits that write a number. -/
def SignedQuantity (s : String) (n : Nat) : Prop :=
  ∃ digits, s = "0x+" ++ String.ofList digits ∧ WritesHex digits n

theorem le_hexNumber (value : Nat) (cs : List Char) : value ≤ hexNumber value cs := by
  induction cs generalizing value with
  | nil => exact Nat.le_refl value
  | cons c rest ih =>
      have further := ih (value * 16 + (hexValue? c).getD 0)
      simp only [hexNumber, List.foldl_cons] at further ⊢
      omega

/-- Once a number is too large, no further digit makes it smaller. -/
theorem readHexDigits_eq_ok_iff (fits : value < UInt64.size) : readHexDigits value cs = .ok n ↔
    (∀ c ∈ cs, (hexValue? c).isSome) ∧ hexNumber value cs = n ∧ n < UInt64.size := by
  induction cs generalizing value with
  | nil =>
      simp only [readHexDigits, hexNumber, Except.ok.injEq, List.foldl_nil]
      constructor
      · rintro rfl
        exact ⟨by simp, rfl, fits⟩
      · exact fun ⟨_, same, _⟩ => same
  | cons c rest ih =>
      simp only [readHexDigits, List.forall_mem_cons]
      cases digit : hexValue? c with
      | none => simp
      | some d =>
          have step : hexNumber value (c :: rest) = hexNumber (value * 16 + d) rest := by
            simp [hexNumber, digit]
          rw [step]
          by_cases small : value * 16 + d < UInt64.size
          · simp only [if_pos small, ih small, Option.isSome_some, true_and]
          · have large := le_hexNumber (value * 16 + d) rest
            simp only [if_neg small, reduceCtorEq, false_iff]
            rintro ⟨-, rfl, word⟩
            omega

theorem noDigit_plus : ¬(hexValue? '+').isSome := by
  decide

theorem readHexWord_eq_ok_iff : readHexWord cs = .ok n ↔
    (WritesHex cs n ∨ ∃ digits, cs = '+' :: digits ∧ WritesHex digits n) ∧ n < UInt64.size := by
  have word {cs : List Char} : readHexDigits 0 cs = .ok n ↔ _ := readHexDigits_eq_ok_iff (by decide)
  unfold readHexWord
  split
  · simp [WritesHex]
  · simp [WritesHex, noDigit_plus]
  · rename_i rest more
    have some : rest ≠ [] := by
      rintro rfl
      exact more rfl
    simp [word, WritesHex, noDigit_plus, some, and_assoc]
  · rename_i empty _ unsigned
    have none : ¬∃ digits, cs = '+' :: digits ∧ WritesHex digits n := by
      rintro ⟨digits, rfl, _⟩
      exact unsigned digits rfl
    have some : cs ≠ [] := by
      rintro rfl
      exact empty rfl
    rw [or_iff_left none, word, WritesHex]
    simp only [ne_eq, some, not_false_eq_true, true_and, and_assoc]

theorem quantity_iff_toList : Quantity s n ↔ ∃ digits, s.toList = '0' :: 'x' :: digits ∧ WritesHex digits n := by
  simp only [Quantity, ← String.toList_inj]
  simp

theorem signedQuantity_iff_toList :
    SignedQuantity s n ↔ ∃ digits, s.toList = '0' :: 'x' :: '+' :: digits ∧ WritesHex digits n := by
  simp only [SignedQuantity, ← String.toList_inj]
  simp

/-- What is read: a quantity, or one with a plus behind its mark. -/
theorem readQuantity_eq_ok_iff {n : UInt64} : readQuantity s = .ok n ↔
    Quantity s n.toNat ∨ SignedQuantity s n.toNat := by
  rw [quantity_iff_toList, signedQuantity_iff_toList]
  unfold readQuantity
  split
  · rename_i digits marked
    simp only [marked, List.cons.injEq, true_and, exists_eq_left']
    have word : readHexWord digits = .ok n.toNat ↔ _ := readHexWord_eq_ok_iff
    rw [and_iff_left n.toNat_lt] at word
    rw [← word]
    cases read : readHexWord digits with
    | error e => simp
    | ok m =>
        have fits := (readHexWord_eq_ok_iff.mp read).2
        simp only [Except.ok.injEq]
        constructor
        · rintro rfl
          exact (UInt64.toNat_ofNat_of_lt fits).symm
        · rintro rfl
          exact UInt64.ofNat_toNat
  · rename_i unmarked
    simp only [reduceCtorEq, false_iff]
    rintro (⟨digits, marked, -⟩ | ⟨digits, marked, -⟩) <;> exact unmarked _ marked

theorem heightOf_eq_ok_iff {n : UInt64} : heightOf s = .ok n ↔ Quantity s n.toNat ∨ SignedQuantity s n.toNat := by
  rw [← readQuantity_eq_ok_iff, heightOf]
  cases readQuantity s <;> simp

/-- A refusal says that the reply makes no sense. -/
theorem heightOf_malformed (refused : ∀ n, heightOf s ≠ .ok n) : ∃ text, heightOf s = .error (.malformed text) := by
  unfold heightOf at refused ⊢
  cases read : readQuantity s with
  | ok n => exact (refused n (by rw [read])).elim
  | error e => exact ⟨_, rfl⟩

theorem hexValue?_digitChar {d : Nat} (small : d < 16) : hexValue? d.digitChar = some d := by
  revert d
  decide

/-- Lower-case digits in the usual order write their number. -/
theorem writesHex_toDigits (n : Nat) : WritesHex (Nat.toDigits 16 n) n := by
  induction n using Nat.strongRecOn with
  | ind n ih =>
      by_cases small : n < 16
      · rw [Nat.toDigits_of_lt_base small]
        simp [WritesHex, hexNumber, hexValue?_digitChar small]
      · obtain ⟨-, digits, front⟩ := ih (n / 16) (by omega)
        have last : hexValue? (n % 16).digitChar = some (n % 16) := hexValue?_digitChar (by omega)
        rw [Nat.toDigits_of_base_le (by decide) (by omega)]
        unfold hexNumber at front
        refine ⟨by simp, ?_, ?_⟩
        · rw [List.forall_mem_append]
          exact ⟨digits, by simp [last]⟩
        · rw [hexNumber, List.foldl_append, front]
          simp [last]
          omega

/-- A text without a plus behind its mark is read as a height exactly when it is a quantity that fits a
word, as the number that it writes; any other such text makes no sense. Every height is read back from
its digits. -/
theorem heightOf_exact (unsigned : ∀ n < UInt64.size, ¬SignedQuantity s n) :
    (∀ n : UInt64, heightOf s = .ok n ↔ Quantity s n.toNat) ∧
    ((∀ n < UInt64.size, ¬Quantity s n) → ∃ text, heightOf s = .error (.malformed text)) ∧
    ∀ n : UInt64, heightOf ("0x" ++ String.ofList (Nat.toDigits 16 n.toNat)) = .ok n := by
  have exact (n : UInt64) : heightOf s = .ok n ↔ Quantity s n.toNat := by
    rw [heightOf_eq_ok_iff, or_iff_left (unsigned _ n.toNat_lt)]
  refine ⟨exact, fun none => heightOf_malformed fun n read => ?_, fun n => ?_⟩
  · exact none _ n.toNat_lt ((exact n).mp read)
  · exact heightOf_eq_ok_iff.mpr (.inl ⟨_, rfl, writesHex_toDigits n.toNat⟩)

theorem heightOf_exact_mixed :
    (∀ n < UInt64.size, ¬SignedQuantity "0x1bF" n) ∧ Quantity "0x1bF" 447 ∧ heightOf "0x1bF" = .ok 447 := by
  have unsigned : ∀ n < UInt64.size, ¬SignedQuantity "0x1bF" n := by
    rintro n - signed
    obtain ⟨digits, marked, -⟩ := signedQuantity_iff_toList.mp signed
    simp at marked
  have quantity : Quantity "0x1bF" 447 := ⟨['1', 'b', 'F'], rfl, by decide, List.all_eq_true.mp rfl, rfl⟩
  exact ⟨unsigned, quantity, ((heightOf_exact unsigned).1 447).mpr quantity⟩

/-- A plus is taken for part of the digits. -/
theorem heightOf_signed : heightOf "0x+1" = .ok 1 ∧ ∀ n, ¬Quantity "0x+1" n := by
  have signed : SignedQuantity "0x+1" 1 := ⟨['1'], rfl, by decide, List.all_eq_true.mp rfl, rfl⟩
  refine ⟨heightOf_eq_ok_iff.mpr (.inr signed), fun n quantity => ?_⟩
  obtain ⟨digits, marked, -, each, -⟩ := quantity_iff_toList.mp quantity
  obtain rfl : ['+', '1'] = digits := by simpa using marked
  exact noDigit_plus (each '+' (by simp))

end ChainRelay.Ethereum
