import ChainRelay.Json.Skip
import ChainRelay.Proofs.Json.Taking

/-! # The texts of words and numbers

Words and numbers are taken from the input as the grammar has them, by the readers of values and by those that
leave values out alike.
-/

namespace ChainRelay.Json

open Reader

theorem readWord_takes (word : List UInt8) : (readWord word).Takes false fun _ text => text = word := by
  induction word with
  | nil => exact fun _ => takes_pure rfl
  | cons expected more ih =>
      intro next
      unfold readWord
      refine takes_peek ?_
      cases next with
      | none => exact takes_failHere
      | some b =>
          refine takes_advance_bind fun next => takes_ite (fun same => ?_) fun _ => takes_failHere
          exact (ih next).mono fun _ text word => same ▸ word ▸ rfl

theorem readDigits_takesFrom (next : Option UInt8) :
    readDigits.TakesFrom next false (fun _ => readDigits) fun ds text =>
      (∀ b ∈ text, isDigit b = true) ∧ (ds.isEmpty = false → text ≠ []) ∧
        ∀ b, next = some b → isDigit b = true → ∃ more, text = b :: more := by
  rintro bytes ds rest head read
  cases read
  have digits : ∀ b ∈ bytes.takeWhile isDigit, isDigit b = true := fun b => List.mem_takeWhile_imp
  refine ⟨bytes.takeWhile isDigit, List.takeWhile_append_dropWhile.symm, ⟨digits, ?_, ?_⟩, nofun, ?_⟩
  · intro found none
    simp [none] at found
  · rintro b rfl digit
    obtain ⟨more, rfl⟩ := List.head?_eq_some_iff.mp head
    exact ⟨_, List.takeWhile_cons_of_pos digit⟩
  · rintro _ rest' - (ends | same)
    · cases ends
    · refine readDigits_append digits fun b head => ?_
      have stopped := List.head?_dropWhile_not isDigit bytes
      rwa [← same, head] at stopped

theorem readDigits_takes : readDigits.Takes false fun ds text => ds.isEmpty = false → Digits text :=
  fun next => (readDigits_takesFrom next).mono fun _ _ ⟨each, filled, _⟩ found => ⟨filled found, each⟩

theorem readDigits_takes_digits {b : UInt8} (digit : isDigit b = true) :
    readDigits.TakesFrom (some b) false (fun _ => readDigits) fun _ text => ∃ ds, text = b :: ds ∧ Digits text := by
  refine (readDigits_takesFrom (some b)).mono ?_
  rintro _ _ ⟨each, -, head⟩
  obtain ⟨ds, rfl⟩ := head b rfl digit
  exact ⟨ds, rfl, List.cons_ne_nil _ _, each⟩

theorem readFloat_takes (negative : Bool) (significand : Nat) (exponent : Int) :
    (readFloat negative significand exponent).Takes false fun _ text => text = [] := by
  intro next
  unfold readFloat
  split
  · exact takes_pure rfl
  · exact takes_failHere

/-- Digits with or without a sign. -/
theorem takes_signed {next : Option UInt8} {signed : Prop} [Decidable signed] {body : Unit → Reader α}
    (sign : signed → next = some 0x2B ∨ next = some 0x2D)
    (digits : ∀ next, (body ()).TakesFrom next false (fun _ => body ()) fun _ => Digits) :
    (if signed then advance >>= body else body ()).TakesFrom next false
      (fun _ => if signed then advance >>= body else body ()) fun _ => ExponentDigits := by
  refine takes_ite (fun holds => ?_) fun _ => (digits next).mono fun _ text => .plain
  rcases sign holds with rfl | rfl
  · exact takes_advance_bind fun next => (digits next).mono fun _ text => .signed (.inl rfl)
  · exact takes_advance_bind fun next => (digits next).mono fun _ text => .signed (.inr rfl)

theorem readExponent_takes (negative : Bool) (significand : Nat) (start : Int) :
    (readExponent negative significand start).Takes false fun _ text => ExponentDigits text := by
  intro next
  unfold readExponent
  refine takes_peek (takes_peek ?_)
  extract_lets body
  have digits : ∀ next, (body ()).TakesFrom next false (fun _ => body ()) fun _ text => Digits text := by
    intro next
    refine takes_peek ?_
    cases next with
    | none => exact takes_failHere
    | some b =>
        refine takes_ite (fun _ => takes_advance_bind fun _ => takes_failHere) fun digit => ?_
        -- What is remembered of the input matters only where the number is refused.
        refine takes_get ?_ fun before => ?_
        · refine fun _ _ => within_bind fun ds => ?_
          cases exponentValue 0 ds with
          | some e => exact within_refl _
          | none => exact .ite (fun _ _ read => by cases read) (within_refl _)
        refine (readDigits_takes_digits (by simpa using digit)).bind fun ds next => ?_
        have all : ∀ front, (∃ ds, front = b :: ds ∧ Digits front) → Digits (front ++ []) := by
          rintro front ⟨_, -, digits⟩
          rwa [List.append_nil]
        cases exponentValue 0 ds with
        | some e => exact (readFloat_takes _ _ _ next).mono fun _ text none => none ▸ all
        | none =>
            refine takes_ite (fun _ => takes_of_fails ?_) fun _ => takes_pure all
            exact gives_bind fun _ => gives_failHere
  exact takes_signed (by simp [or_comm]) digits

theorem readDecimals_takes (negative : Bool) (significand : Nat) (start : Int) :
    (readDecimals negative significand start).Takes false fun _ text =>
      ∃ ds rest, Digits ds ∧ Exponent rest ∧ text = ds ++ rest := by
  intro next
  refine (readDigits_takes next).bind fun ds next => takes_ite (fun _ => ?_) fun found => ?_
  · refine takes_peek ?_
    cases next with
    | none => exact takes_failAtNext
    | some b => exact takes_failAtNext
  · refine TakesFrom.mono (L := fun _ text => Exponent text) (takes_peek ?_) fun _ text exponent front digits =>
      ⟨front, text, digits (by simpa using found), exponent, rfl⟩
    have ends (exponent : Int) := (readFloat_takes negative (absorb significand ds).1 exponent next).mono
      fun _ text (none : text = []) => none ▸ Exponent.none
    cases next with
    | none => exact ends _
    | some b =>
        refine takes_ite (fun letter => takes_advance_bind fun next => ?_) fun _ => ends _
        exact (readExponent_takes _ _ _ next).mono fun _ text => .some letter

theorem readAfterDigits_takes (negative : Bool) (significand dropped : Nat) :
    (readAfterDigits negative significand dropped).Takes false fun _ text => NumberEnd text := by
  intro next
  refine takes_peek ?_
  have ends : (if dropped = 0 then pure (wholeNumber negative significand)
      else readFloat negative significand dropped : Reader Number).TakesFrom next false
        (fun _ => if dropped = 0 then pure (wholeNumber negative significand)
          else readFloat negative significand dropped) fun _ => NumberEnd := by
    refine takes_ite (fun _ => takes_pure (.whole .none)) fun _ => ?_
    exact (readFloat_takes _ _ _ next).mono fun _ text none => none ▸ .whole .none
  cases next with
  | none => exact ends
  | some b =>
      refine takes_ite (fun point => takes_advance_bind fun next => ?_) fun _ => ?_
      · refine (readDecimals_takes _ _ _ next).mono ?_
        rintro _ _ ⟨ds, rest, digits, exponent, rfl⟩
        exact point ▸ .decimals digits exponent
      refine takes_ite (fun letter => takes_advance_bind fun next => ?_) fun _ => ends
      exact (readExponent_takes _ _ _ next).mono fun _ text digits => .whole (.some letter digits)

theorem readUnsigned_takes (negative : Bool) : (readUnsigned negative).Takes false fun _ text => Unsigned text := by
  intro next
  refine takes_peek ?_
  cases next with
  | none => exact takes_failHere
  | some b =>
      refine takes_ite (fun zero => ?_) fun nonzero => takes_ite (fun digit => ?_) fun _ => ?_
      · refine takes_advance_bind fun next => takes_peek ?_
        have more := (readAfterDigits_takes negative 0 0 next).mono fun _ text => Unsigned.zero
        cases next with
        | none => exact zero ▸ more
        | some c => exact takes_ite (fun _ => takes_failAtNext) fun _ => zero ▸ more
      · refine (readDigits_takes_digits digit).bind fun ds next => ?_
        refine (readAfterDigits_takes _ _ _ next).mono ?_
        rintro _ text more _ ⟨ds, rfl, digits⟩
        exact .digits nonzero digits more
      · exact takes_advance_bind fun _ => takes_failHere

theorem readNumber_takes : readNumber.Takes false fun _ text => NumberText text := by
  intro next
  refine takes_peek (takes_ite (fun minus => ?_) fun _ => ?_)
  · rw [beq_iff_eq] at minus
    subst minus
    exact takes_advance_bind fun next => (readUnsigned_takes true next).mono fun _ text => .negative
  · exact (readUnsigned_takes false next).mono fun _ text => .plain

/-! ## Numbers that are left out -/

theorem skipExponent_takes : skipExponent.Takes false fun _ text => ExponentDigits text := by
  intro next
  unfold skipExponent
  refine takes_peek ?_
  extract_lets body
  have digits : ∀ next, (body ()).TakesFrom next false (fun _ => body ()) fun _ text => Digits text := by
    intro next
    refine takes_peek ?_
    cases next with
    | none => exact takes_failHere
    | some b =>
        refine takes_advance_bind fun next => takes_ite (fun digit => ?_) fun _ => takes_failHere
        refine ((readDigits_takesFrom next).mono ?_).then_pure
        rintro _ text ⟨each, -⟩
        exact ⟨List.cons_ne_nil _ _, List.forall_mem_cons.mpr ⟨digit, each⟩⟩
  exact takes_signed (by simp) digits

theorem skipFraction_takes : skipFraction.Takes false fun _ text => NumberEnd text := by
  intro next
  refine takes_peek ?_
  cases next with
  | none => exact takes_pure (.whole .none)
  | some b =>
      refine takes_ite (fun point => ?_) fun _ => takes_ite (fun letter => ?_) fun _ => takes_pure (.whole .none)
      · refine takes_advance_bind fun next => (readDigits_takes next).bind fun ds next => ?_
        refine takes_ite (fun _ => takes_of_fails (gives_failAtNext.then fun _ => False.elim)) fun found => ?_
        refine TakesFrom.mono (L := fun _ => Exponent) (takes_peek ?_) fun _ text exponent front digits =>
          point ▸ .decimals (digits (by simpa using found)) exponent
        cases next with
        | none => exact takes_pure .none
        | some e =>
            refine takes_ite (fun letter => takes_advance_bind fun next => ?_) fun _ => takes_pure .none
            exact (skipExponent_takes next).mono fun _ text => .some letter
      · refine takes_advance_bind fun next => (skipExponent_takes next).mono fun _ text digits => ?_
        exact .whole (.some letter digits)

theorem skipNumber_takes : skipNumber.Takes false fun _ text => Unsigned text := by
  intro next
  refine takes_peek ?_
  cases next with
  | none => exact takes_failHere
  | some b =>
      refine takes_ite (fun zero => ?_) fun nonzero => takes_ite (fun digit => ?_) fun _ => ?_
      · refine takes_advance_bind fun next => takes_peek ?_
        cases next with
        | none => exact takes_pure (zero ▸ .zero (.whole .none))
        | some c =>
            refine takes_ite (fun _ => takes_failAtNext) fun _ => ?_
            exact (skipFraction_takes _).mono fun _ text more => zero ▸ .zero more
      · refine (readDigits_takes_digits digit).bind fun _ next => (skipFraction_takes next).mono ?_
        rintro _ text more _ ⟨ds, rfl, digits⟩
        exact .digits nonzero digits more
      · exact takes_advance_bind fun _ => takes_failHere

end ChainRelay.Json
