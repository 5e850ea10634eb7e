import ChainRelay.Proofs.Json.Edges
import ChainRelay.Proofs.Json.Skipping

/-! # Every value can be left out

The loop that leaves a value out gets over every value of the grammar: over numbers of any size, strings of
any bytes and containers inside each other to any depth. It takes fewer than two steps for each byte.
-/

namespace ChainRelay.Json

open Reader

variable {b : UInt8} {first : Bool} {ws front text body rest : List UInt8}

/-! ## Numbers -/

theorem skipExponent_text {ds : List UInt8} (digits : ExponentDigits ds) (ends : EndsNumber rest) :
    skipExponent (ds ++ rest) = .ok ((), rest) := by
  have taken {ds : List UInt8} (digits : ∀ b ∈ ds, isDigit b = true) :
      readDigits (ds ++ rest) = .ok (ds.map digitValue, rest) :=
    readDigits_append digits fun b head => (ends b head).1
  cases digits with
  | plain digits =>
      obtain ⟨b, ds, rfl⟩ := List.exists_cons_of_ne_nil digits.1
      obtain ⟨digit, others⟩ := List.forall_mem_cons.mp digits.2
      have unsigned : (some b == some 0x2B || some b == some 0x2D) = false := by
        simp only [Bool.or_eq_false_iff, beq_eq_false_iff_ne, ne_eq, Option.some.injEq]
        constructor <;> rintro rfl <;> cases digit
      simp only [skipExponent, List.cons_append, run_peek, List.head?_cons, unsigned, Bool.false_eq_true, if_false,
        run_advance, digit, if_true, run_bind (taken others)]
      rfl
  | @signed sign ds either digits =>
      obtain ⟨b, ds, rfl⟩ := List.exists_cons_of_ne_nil digits.1
      obtain ⟨digit, others⟩ := List.forall_mem_cons.mp digits.2
      have isSign : (some sign == some 0x2B || some sign == some 0x2D) = true := by
        rcases either with rfl | rfl <;> rfl
      simp only [skipExponent, List.cons_append, run_peek, List.head?_cons, isSign, if_true, run_advance, digit,
        run_bind (taken others)]
      rfl

theorem skipFraction_text (more : NumberEnd text) (ends : EndsNumber rest) :
    skipFraction (text ++ rest) = .ok ((), rest) := by
  cases more with
  | whole exponent =>
      cases exponent with
      | none =>
          cases rest with
          | nil => rfl
          | cons b rest =>
              obtain ⟨-, point, lower, upper⟩ := ends b rfl
              simp only [skipFraction, List.nil_append, run_peek, List.head?_cons, point, lower, upper, or_self,
                if_false]
              rfl
      | @some e ds letter digits =>
          have noPoint : e ≠ 0x2E := by rcases letter with rfl | rfl <;> decide
          simp only [skipFraction, List.cons_append, run_peek, List.head?_cons, noPoint, letter, if_false, if_true,
            run_advance]
          exact skipExponent_text digits ends
  | @decimals ds text digits exponent =>
      have filled : (ds.map digitValue).isEmpty = false := by simp [digits.1]
      have taken := readDigits_append digits.2 (noDigit_exponent exponent ends)
      simp only [skipFraction, List.cons_append, List.append_assoc, run_peek, List.head?_cons, if_true, run_advance,
        run_bind taken, filled, Bool.false_eq_true, if_false]
      cases exponent with
      | none =>
          cases rest with
          | nil => rfl
          | cons b rest =>
              obtain ⟨-, -, lower, upper⟩ := ends b rfl
              simp only [List.nil_append, List.head?_cons, lower, upper, or_self, if_false]
              rfl
      | some letter digits =>
          simp only [List.cons_append, List.head?_cons, letter, if_true, run_advance]
          exact skipExponent_text digits ends

theorem skipNumber_text (unsigned : Unsigned text) (ends : EndsNumber rest) :
    skipNumber (text ++ rest) = .ok ((), rest) := by
  cases unsigned with
  | @zero text more =>
      have after := skipFraction_text more ends
      simp only [skipNumber, List.cons_append, run_peek, List.head?_cons, if_true, run_advance]
      cases head : (text ++ rest).head? with
      | none =>
          rw [List.head?_eq_none_iff.mp head] at after ⊢
          exact after
      | some c => simpa only [noDigit_numberEnd more ends c head, Bool.false_eq_true, if_false] using after
  | @digits b ds text nonzero digits more =>
      have digit : isDigit b = true := digits.2 b List.mem_cons_self
      have taken := readDigits_append digits.2 (noDigit_numberEnd more ends)
      rw [List.cons_append] at taken
      simp only [skipNumber, List.cons_append, List.append_assoc, run_peek, List.head?_cons, nonzero, if_false, digit,
        if_true, run_bind taken]
      exact skipFraction_text more ends

theorem readWord_text (word rest : List UInt8) : readWord word (word ++ rest) = .ok ((), rest) := by
  induction word with
  | nil => rfl
  | cons b more ih =>
      simp only [readWord, List.cons_append, run_peek, List.head?_cons, run_advance, if_true]
      exact ih

/-! ## One step of the loop -/

/-- What is left of the open containers. -/
def skipOpen (fuel : Nat) : List Frame → Reader Unit
  | [] => pure ()
  | frame :: outer => skipRestOf fuel true frame outer

/-- A value that opens no container takes one step. -/
theorem skipValueIn_scalar (value : ValueText text) (list : text.head? ≠ some 0x5B) (object : text.head? ≠ some 0x7B)
    (blank : Blank ws) (ends : EndsNumber rest) (fuel : Nat) (frames : List Frame) :
    skipValueIn (fuel + 1) frames (ws ++ text ++ rest) = skipOpen fuel frames rest := by
  obtain ⟨b, more, split, token, -⟩ := value.head
  have entered : nextToken (ws ++ text ++ rest) = .ok (some b, text ++ rest) := by
    rw [List.append_assoc, split]
    exact nextToken_blank blank token _
  have noList : b ≠ 0x5B := by
    rintro rfl
    exact list (split ▸ rfl)
  have noObject : b ≠ 0x7B := by
    rintro rfl
    exact object (split ▸ rfl)
  simp only [skipValueIn, run_bind entered, noList, noObject, if_false]
  cases value with
  | null =>
      cases split
      simp +decide only [if_true, List.cons_append, run_advance]
      exact run_bind (readWord_text [0x75, 0x6C, 0x6C] rest)
  | yes =>
      cases split
      simp +decide only [if_true, if_false, List.cons_append, run_advance]
      exact run_bind (readWord_text [0x72, 0x75, 0x65] rest)
  | no =>
      cases split
      simp +decide only [if_true, if_false, List.cons_append, run_advance]
      exact run_bind (readWord_text [0x61, 0x6C, 0x73, 0x65] rest)
  | string string =>
      cases split
      have passed : skipString (more ++ rest) = .ok ((), rest) :=
        skipString_eq_ok_iff.mpr (afterString_text string rest)
      simp +decide only [if_true, if_false, List.cons_append, run_advance]
      exact run_bind passed
  | number number =>
      cases number with
      | negative unsigned =>
          cases split
          simp +decide only [if_true, if_false, List.cons_append, run_advance]
          exact run_bind (skipNumber_text unsigned ends)
      | plain unsigned =>
          obtain ⟨_, _, same, digit⟩ := unsigned.head
          obtain ⟨rfl, rfl⟩ := List.cons.inj (split.symm.trans same)
          have others : b ≠ 0x6E ∧ b ≠ 0x74 ∧ b ≠ 0x66 ∧ b ≠ 0x2D := by
            refine ⟨?_, ?_, ?_, ?_⟩ <;> rintro rfl <;> cases digit
          simp only [others, digit, if_true, if_false]
          exact run_bind (skipNumber_text unsigned ends)
  | array => exact absurd rfl list
  | object => exact absurd rfl object

theorem Frame.close_eq (frame : Frame) : (if frame = .list then 0x5D else 0x7D) = frame.close := by
  cases frame <;> rfl

/-- At its end a container is left. -/
theorem skipRestOf_done {comma : Bool} {frame : Frame} (blank : Blank ws) (fuel : Nat) (outer : List Frame) :
    skipRestOf (fuel + 1) comma frame outer (ws ++ frame.close :: rest) = skipOpen fuel outer rest := by
  have token : isJsonBlank frame.close = false ∧ frame.close ≠ 0x2C := by cases frame <;> decide
  simp only [skipRestOf, run_bind (nextToken_blank blank token.1 rest), token.2, Bool.and_false, decide_false,
    Bool.false_eq_true, if_false, frame.close_eq, if_true, run_advance]
  rfl

/-- The reader of an item with its label. -/
def skipItem (fuel : Nat) (frame : Frame) (outer : List Frame) : Reader Unit := do
  if frame = .object then skipName
  skipValueIn fuel (frame :: outer)

/-- An item comes after what leads to it. -/
theorem skipRestOf_item (frame : Frame) (lead : Lead first front) (token : isJsonBlank b = false)
    (noEnd : b ≠ frame.close) (fuel : Nat) (outer : List Frame) (rest : List UInt8) :
    ∃ ws, Blank ws ∧ skipRestOf (fuel + 1) (!first) frame outer (front ++ b :: rest) =
      skipItem fuel frame outer (ws ++ b :: rest) := by
  obtain ⟨before, after, blank, blank', rfl⟩ := lead
  cases first with
  | true =>
      have entered := nextToken_blank (blank.append blank') token rest
      refine ⟨[], blank_nil, ?_⟩
      simp only [comma, if_true, List.append_nil, skipRestOf, run_bind entered, Bool.not_true, Bool.false_and,
        Bool.false_eq_true, if_false, frame.close_eq, noEnd]
      rfl
  | false =>
      have separator := nextToken_blank blank (b := 0x2C) (by decide) (after ++ b :: rest)
      refine ⟨after, blank', ?_⟩
      simp only [comma, Bool.false_eq_true, if_false, List.append_assoc, List.cons_append, List.nil_append,
        skipRestOf, run_bind separator, Bool.not_false, Bool.true_and, decide_true, if_true, run_advance]
      rfl

theorem skipName_text {name before : List UInt8} (blank : Blank ws) (named : StringRest name)
    (blank' : Blank before) (after : List UInt8) :
    skipName (ws ++ 0x22 :: name ++ (before ++ 0x3A :: after)) = .ok ((), after) := by
  have opened := nextToken_blank blank (b := 0x22) (by decide) (name ++ (before ++ 0x3A :: after))
  have passed : skipString (name ++ (before ++ 0x3A :: after)) = .ok ((), before ++ 0x3A :: after) :=
    skipString_eq_ok_iff.mpr (afterString_text named _)
  have colon := nextToken_blank blank' (b := 0x3A) (by decide) after
  simp only [skipName, List.append_assoc, List.cons_append, run_bind opened, if_true, run_advance, run_bind passed,
    run_bind colon]
  rfl

/-! ## The whole loop -/

/-- The loop gets over the value in fewer than two steps for each byte. -/
def Skipped (text : List UInt8) : Prop :=
  ∃ cost, cost < 2 * text.length ∧ ∀ fuel frames ws rest, Blank ws → EndsNumber rest →
    skipValueIn (fuel + cost) frames (ws ++ text ++ rest) = skipOpen fuel frames rest

/-- The loop gets over what is left of the container, and its end. -/
def SkippedBody (frame : Frame) (first : Bool) (body : List UInt8) : Prop :=
  ∃ cost, cost ≤ 2 * body.length + 1 ∧ ∀ fuel outer rest,
    skipRestOf (fuel + cost) (!first) frame outer (body ++ frame.close :: rest) = skipOpen fuel outer rest

theorem skipped_scalar (value : ValueText text) (list : text.head? ≠ some 0x5B) (object : text.head? ≠ some 0x7B) :
    Skipped text := by
  have filled := List.length_pos_iff.mpr value.ne_nil
  exact ⟨1, by omega, fun fuel frames ws rest blank ends => skipValueIn_scalar value list object blank ends fuel frames⟩

theorem SkippedBody.list (skipped : SkippedBody .list true body) : Skipped (0x5B :: body ++ [0x5D]) := by
  obtain ⟨cost, small, skips⟩ := skipped
  refine ⟨cost + 1, by simp; omega, fun fuel frames ws rest blank _ => ?_⟩
  have entered := nextToken_blank blank (b := 0x5B) (by decide) (body ++ 0x5D :: rest)
  have bytes : ws ++ (0x5B :: body ++ [0x5D]) ++ rest = ws ++ 0x5B :: (body ++ 0x5D :: rest) := by simp
  rw [bytes, ← Nat.add_assoc, ← skips fuel frames rest]
  simp only [skipValueIn, run_bind entered, if_true, run_advance]
  rfl

theorem SkippedBody.object (skipped : SkippedBody .object true body) : Skipped (0x7B :: body ++ [0x7D]) := by
  obtain ⟨cost, small, skips⟩ := skipped
  refine ⟨cost + 1, by simp; omega, fun fuel frames ws rest blank _ => ?_⟩
  have entered := nextToken_blank blank (b := 0x7B) (by decide) (body ++ 0x7D :: rest)
  have bytes : ws ++ (0x7B :: body ++ [0x7D]) ++ rest = ws ++ 0x7B :: (body ++ 0x7D :: rest) := by simp
  rw [bytes, ← Nat.add_assoc, ← skips fuel frames rest]
  simp +decide only [skipValueIn, run_bind entered, if_true, if_false, run_advance]
  rfl

theorem SkippedBody.done {frame : Frame} (blank : Blank ws) : SkippedBody frame first ws :=
  ⟨1, by omega, fun fuel outer _ => skipRestOf_done blank fuel outer⟩

theorem SkippedBody.item (lead : Lead first front) (value : ValueText text) (skipped : Skipped text)
    (items : ItemsText false body) (more : SkippedBody .list false body) :
    SkippedBody .list first (front ++ text ++ body) := by
  obtain ⟨cost, small, skips⟩ := skipped
  obtain ⟨cost', small', skips'⟩ := more
  obtain ⟨b, others, rfl, token, noEnd⟩ := value.head
  -- One step leads to the item; the loop then gets over it with the container still open.
  refine ⟨cost' + cost + 1, by simp at small ⊢; omega, fun fuel outer rest => ?_⟩
  obtain ⟨ws, blank, entered⟩ :=
    skipRestOf_item .list lead token noEnd (fuel + cost' + cost) outer (others ++ (body ++ 0x5D :: rest))
  have passed := skips (fuel + cost') (.list :: outer) ws (body ++ 0x5D :: rest) blank items.endsNumber
  simp only [Frame.close, Nat.add_assoc, List.append_assoc, List.cons_append] at entered passed skips' ⊢
  rw [entered, ← skips' fuel outer rest]
  exact passed

theorem SkippedBody.member {name gap : List UInt8} (lead : Lead first front) (named : StringRest name)
    (colon : Colon gap) (skipped : Skipped text) (members : MembersText false body)
    (more : SkippedBody .object false body) :
    SkippedBody .object first (front ++ 0x22 :: name ++ gap ++ text ++ body) := by
  obtain ⟨cost, small, skips⟩ := skipped
  obtain ⟨cost', small', skips'⟩ := more
  obtain ⟨before, after, blank, blank', rfl⟩ := colon
  refine ⟨cost' + cost + 1, by simp at small ⊢; omega, fun fuel outer rest => ?_⟩
  obtain ⟨ws, blank'', entered⟩ := skipRestOf_item .object lead (b := 0x22) (by decide) (by decide)
    (fuel + cost' + cost) outer (name ++ (before ++ 0x3A :: (after ++ (text ++ (body ++ 0x7D :: rest)))))
  have labelled := skipName_text blank'' named blank (after ++ (text ++ (body ++ 0x7D :: rest)))
  have passed := skips (fuel + cost') (.object :: outer) after (body ++ 0x7D :: rest) blank' members.endsNumber
  simp only [Frame.close, Nat.add_assoc, List.append_assoc, List.cons_append] at entered labelled passed skips' ⊢
  rw [entered, ← skips' fuel outer rest]
  exact (run_bind labelled).trans passed

mutual

theorem ValueText.skipped : ∀ {text : List UInt8}, ValueText text → Skipped text
  | _, .null => skipped_scalar .null (by decide) (by decide)
  | _, .yes => skipped_scalar .yes (by decide) (by decide)
  | _, .no => skipped_scalar .no (by decide) (by decide)
  | _, .string string => skipped_scalar (.string string) (by simp) (by simp)
  | _, .number number => by
      obtain ⟨b, more, rfl, minus | digit⟩ := number.head
      · exact skipped_scalar (.number number) (by simp [minus]) (by simp [minus])
      · refine skipped_scalar (.number number) ?_ ?_ <;> rintro ⟨⟩ <;> cases digit
  | _, .array items => items.skipped.list
  | _, .object members => members.skipped.object

theorem ItemsText.skipped : ∀ {first : Bool} {body : List UInt8}, ItemsText first body → SkippedBody .list first body
  | _, _, .done blank => .done blank
  | _, _, .next lead item more => .item lead item item.skipped more more.skipped

theorem MembersText.skipped :
    ∀ {first : Bool} {body : List UInt8}, MembersText first body → SkippedBody .object first body
  | _, _, .done blank => .done blank
  | _, _, .next lead named colon value more => .member lead named colon value.skipped more more.skipped

end

/-- Each value is left out, whatever follows that does not go on with a number. -/
theorem skipValue_text (value : ValueText text) (blank : Blank ws) (ends : EndsNumber rest) :
    skipValue (ws ++ text ++ rest) = .ok ((), rest) := by
  obtain ⟨cost, small, skips⟩ := value.skipped
  have bounded : bound (ws ++ text ++ rest) = .ok ((ws ++ text ++ rest).length + 1, ws ++ text ++ rest) := rfl
  have enough : cost ≤ 2 * ((ws ++ text ++ rest).length + 1) := by
    simp
    omega
  rw [skipValue, run_bind bounded, ← Nat.sub_add_cancel enough, skips _ _ _ _ blank ends]
  rfl

end ChainRelay.Json
