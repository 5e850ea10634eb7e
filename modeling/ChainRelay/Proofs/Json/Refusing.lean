import ChainRelay.Proofs.Json.Records
import ChainRelay.Proofs.Json.Results

/-! # What readers refuse

The first byte of a text tells what kind of value it spells, so a reader of texts refuses every value that
is no text. A double is printed with a point or an exponent, so it is never read as a whole number.
-/

namespace ChainRelay.Json

open Reader

/-- The reader takes no spelling of the value. -/
def Reader.Refuses (r : Reader α) (v : Value) : Prop :=
  ∀ ws text rest, Blank ws → Spells v text → EndsNumber rest → ∀ result, r (ws ++ text ++ rest) ≠ .ok result

/-- All spellings of the value are taken, with one result, or none is. -/
def Reader.Settles (r : Reader α) (v : Value) : Prop :=
  (∃ a, r.Reads v a) ∨ r.Refuses v

theorem endsNumber_nil : EndsNumber [] := by
  intro b first
  cases first

namespace Reader

variable {r : Reader α} {v : Value} {a : α}

theorem Reads.run_compact (reads : r.Reads v a) : r (utf8Bytes v.compact) = .ok (a, []) := by
  simpa using reads [] _ [] blank_nil v.spells_compact endsNumber_nil

theorem Refuses.run_compact (refuses : r.Refuses v) (result : α × List UInt8) :
    r (utf8Bytes v.compact) ≠ .ok result := by
  simpa using refuses [] _ [] blank_nil v.spells_compact endsNumber_nil result

theorem Refuses.not_reads (refuses : r.Refuses v) : ¬r.Reads v a :=
  fun reads => refuses.run_compact _ reads.run_compact

theorem Reads.holds (reads : r.Reads v a) {P : α → Prop} (gives : r.Gives P) : P a :=
  gives _ _ _ reads.run_compact

theorem Refuses.then (refuses : r.Refuses v) (f : α → Reader β) : (r >>= f).Refuses v := by
  intro ws text rest blank spelled ends ⟨b, left⟩ read
  obtain ⟨a, middle, first, _⟩ := bind_eq_ok_iff.mp read
  exact refuses ws text rest blank spelled ends _ first

theorem Settles.then_pure (settles : r.Settles v) (f : α → β) : (r >>= fun x => pure (f x)).Settles v := by
  rcases settles with ⟨a, reads⟩ | refuses
  · exact .inl ⟨f a, reads.then_pure f⟩
  · exact .inr (refuses.then _)

theorem Settles.then_pure_iff (settles : r.Settles v) {f : α → β} :
    (∃ b, (r >>= fun x => pure (f x)).Reads v b) ↔ ∃ a, r.Reads v a := by
  constructor
  · intro ⟨b, reads⟩
    rcases settles with taken | refuses
    · exact taken
    · exact absurd reads (refuses.then _).not_reads
  · intro ⟨a, reads⟩
    exact ⟨f a, reads.then_pure f⟩

end Reader

/-! ## The first byte -/

/-- The byte with which a text of the value begins. -/
def Value.BeginsWith : Value → UInt8 → Prop
  | .null, b => b = 0x6E
  | .bool true, b => b = 0x74
  | .bool false, b => b = 0x66
  | .number _, b => b = 0x2D ∨ isDigit b = true
  | .string _, b => b = 0x22
  | .array _, b => b = 0x5B
  | .object _, b => b = 0x7B

theorem Value.BeginsWith.token {v : Value} {b : UInt8} (begins : v.BeginsWith b) : isJsonBlank b = false := by
  cases v with
  | number n =>
      rcases begins with rfl | digit
      · rfl
      · exact token_of_isDigit digit
  | bool truth => cases truth <;> cases begins <;> rfl
  | null | string | array | object =>
      cases begins
      rfl

theorem Spells.begins {v : Value} {text : List UInt8} (spelled : Spells v text) :
    ∃ b rest, text = b :: rest ∧ v.BeginsWith b := by
  cases spelled with
  | null | yes | no | array | object => exact ⟨_, _, rfl, rfl⟩
  | int => exact startsNumber_intText _
  | float => exact startsNumber_floatText _
  | string => exact ⟨_, _, utf8Bytes_quoted _, rfl⟩

/-- The reader looks at the first byte of a value before it takes anything. -/
theorem run_firstOfValue {f : UInt8 → Reader α} {v : Value} {ws text : List UInt8} (blank : Blank ws)
    (spelled : Spells v text) (rest : List UInt8) :
    ∃ b, v.BeginsWith b ∧ (firstOfValue >>= f) (ws ++ text ++ rest) = f b (text ++ rest) := by
  obtain ⟨b, more, rfl, begins⟩ := spelled.begins
  refine ⟨b, begins, ?_⟩
  rw [List.append_assoc, List.cons_append, run_bind (firstOfValue_token blank begins.token _)]

theorem not_failOnNext {expected : String} {bytes : List UInt8} {result : α × List UInt8} :
    (failOnNext expected : Reader α) bytes ≠ .ok result := by
  intro read
  have nothing : (failOnNext expected : Reader α).Gives fun _ => False := failOnNext_gives
  exact nothing bytes result.1 result.2 read

theorem readText_refuses {v : Value} (other : ∀ s, v ≠ .string s) : readText.Refuses v := by
  intro ws text rest blank spelled _ result
  obtain ⟨b, begins, first⟩ := run_firstOfValue blank spelled rest
  rw [readText, first]
  split
  · rename_i quote
    subst quote
    cases v with
    | string s => exact absurd rfl (other s)
    | bool truth => cases truth <;> cases begins
    | number n => simp [Value.BeginsWith, isDigit] at begins
    | null | array | object => cases begins
  · exact not_failOnNext

theorem readText_settles (v : Value) : readText.Settles v := by
  cases v with
  | string s => exact .inl ⟨s, readText_reads s⟩
  | null | bool | number | array | object => exact .inr (readText_refuses nofun)

theorem reads_text_iff {v : Value} : (∃ s, readText.Reads v s) ↔ ∃ s, v = .string s := by
  constructor
  · intro ⟨s, reads⟩
    apply Classical.byContradiction
    intro other
    exact (readText_refuses fun s same => other ⟨s, same⟩).not_reads reads
  · rintro ⟨s, rfl⟩
    exact ⟨s, readText_reads s⟩

/-! ## Texts of doubles -/

/-- The text has digits and then a point or an exponent. -/
def Pointed (s : String) : Prop :=
  ∃ digits mark rest, utf8Bytes s = digits ++ mark :: rest ∧ digits ≠ [] ∧ (∀ b ∈ digits, isDigit b = true) ∧
    (mark = 0x2E ∨ mark = 0x65)

/-- The text consists of digits. -/
def AllDigits (s : String) : Prop :=
  utf8Bytes s ≠ [] ∧ ∀ b ∈ utf8Bytes s, isDigit b = true

theorem allDigits_repr (n : Nat) : AllDigits (Nat.repr n) := by
  rw [AllDigits, utf8Bytes_repr]
  exact ⟨digitBytes_ne_nil n, isDigit_digitBytes n⟩

theorem AllDigits.append {s t : String} (digits : AllDigits s) (more : ∀ b ∈ utf8Bytes t, isDigit b = true) :
    AllDigits (s ++ t) := by
  rw [AllDigits, utf8Bytes_append]
  exact ⟨by simp [digits.1], List.forall_mem_append.mpr ⟨digits.2, more⟩⟩

theorem AllDigits.point {s : String} (digits : AllDigits s) (t : String) : Pointed (s ++ "." ++ t) := by
  have dot : utf8Bytes "." = [0x2E] := by decide
  refine ⟨utf8Bytes s, 0x2E, utf8Bytes t, ?_, digits.1, digits.2, .inl rfl⟩
  simp [utf8Bytes_append, dot]

theorem AllDigits.exponent {s : String} (digits : AllDigits s) (t : String) : Pointed (s ++ "e" ++ t) := by
  have mark : utf8Bytes "e" = [0x65] := by decide
  refine ⟨utf8Bytes s, 0x65, utf8Bytes t, ?_, digits.1, digits.2, .inr rfl⟩
  simp [utf8Bytes_append, mark]

theorem Pointed.append {s : String} (pointed : Pointed s) (t : String) : Pointed (s ++ t) := by
  obtain ⟨digits, mark, rest, split, found⟩ := pointed
  exact ⟨digits, mark, rest ++ utf8Bytes t, by rw [utf8Bytes_append, split]; simp, found⟩

theorem isDigit_ofList {cs : List Char} (each : ∀ c ∈ cs, 48 ≤ c.toNat ∧ c.toNat ≤ 57) :
    ∀ b ∈ utf8Bytes (String.ofList cs), isDigit b = true := by
  have small : ∀ c ∈ cs, c.toNat < 0x80 := fun c member => by have := each c member; omega
  rw [utf8Bytes_ofList, flatMap_utf8EncodeChar_ascii small]
  intro b member
  obtain ⟨c, inside, rfl⟩ := List.mem_map.mp member
  have bounds := each c inside
  simp [isDigit, UInt8.le_iff_toNat_le]
  omega

theorem allDigits_take (n : Nat) {count : Nat} (some' : 0 < count) :
    AllDigits (String.ofList ((Nat.repr n).toList.take count)) := by
  constructor
  · obtain ⟨b, rest, split, -⟩ := startsNumber_take (startsNumber_repr n) some'
    rw [split]
    exact List.cons_ne_nil b rest
  · apply isDigit_ofList
    intro c member
    rw [Nat.toList_repr] at member
    exact digit_of_mem (List.mem_of_mem_take member)

theorem isDigit_zeros (n : Nat) : ∀ b ∈ utf8Bytes (String.ofList (List.replicate n '0')), isDigit b = true := by
  apply isDigit_ofList
  intro c member
  rw [List.eq_of_mem_replicate member]
  decide

theorem mantissa_pointed (n : Nat) (fraction : List Char) (exponent : String) :
    Pointed (String.ofList ((Nat.repr n).toList.take 1) ++
      (if fraction.isEmpty then "" else "." ++ String.ofList fraction) ++ "e" ++ exponent) := by
  have first := allDigits_take n Nat.one_pos
  split
  · rw [String.append_empty]
    exact first.exponent _
  · rw [← String.append_assoc]
    exact ((first.point _).append _).append _

/-- The text of a double has a point or an exponent behind its first digits. -/
theorem floatText_pointed (x : Float) :
    ∃ sign body, Number.floatText x = sign ++ body ∧ (sign = "-" ∨ sign = "") ∧ Pointed body := by
  have zero : AllDigits "0" := allDigits_repr 0
  refine ⟨_, _, rfl, ?_, ?_⟩
  · split <;> simp
  split
  · exact zero.point "0"
  split
  · split
    · have whole := ((allDigits_repr (Decimal.shortest (Decimal.Binary.ofBits x.toBits)).digits).append
        (isDigit_zeros (Decimal.shortest (Decimal.Binary.ofBits x.toBits)).exponent.toNat)).point "0"
      rwa [String.append_assoc] at whole
    split
    · exact (allDigits_take _ (by omega)).point _
    · exact ((zero.point "").append _).append _
  · exact mantissa_pointed _ _ _

/-! ## Whole numbers -/

/-- The number is a double. -/
def Number.IsFloat (n : Number) : Prop :=
  ∃ x, n = .float x

theorem readFloat_gives (negative : Bool) (significand : Nat) (exponent : Int) :
    (readFloat negative significand exponent).Gives Number.IsFloat := by
  unfold readFloat
  split
  · exact gives_pure ⟨_, rfl⟩
  · exact gives_failHere

theorem gives_advanceIf {c : Prop} [Decidable c] {m : Reader α} {P : α → Prop} (gives : m.Gives P) :
    (if c then do advance; m else m).Gives P := by
  split
  · exact gives_bind fun _ => gives
  · exact gives

theorem readExponent_gives (negative : Bool) (significand : Nat) (start : Int) :
    (readExponent negative significand start).Gives Number.IsFloat := by
  refine gives_bind fun down => gives_bind fun up => ?_
  dsimp only
  refine gives_advanceIf (gives_bind fun next => ?_)
  cases next with
  | none => exact gives_failHere
  | some b =>
      dsimp only
      split
      · exact gives_bind fun _ => gives_failHere
      · refine gives_bind fun before => gives_bind fun digits => ?_
        split
        · exact readFloat_gives _ _ _
        · split
          · exact gives_bind fun _ => gives_failHere
          · exact gives_pure ⟨_, rfl⟩

theorem readDecimals_gives (negative : Bool) (significand : Nat) (start : Int) :
    (readDecimals negative significand start).Gives Number.IsFloat := by
  refine gives_bind fun ds => ?_
  dsimp only
  split
  · refine gives_bind fun next => ?_
    cases next with
    | none => exact gives_failAtNext
    | some b => exact gives_failAtNext
  · refine gives_bind fun next => ?_
    cases next with
    | none => exact readFloat_gives _ _ _
    | some b =>
        dsimp only
        split
        · exact gives_bind fun _ => readExponent_gives _ _ _
        · exact readFloat_gives _ _ _

/-- A number with a point or an exponent is a double. -/
theorem readAfterDigits_pointed {negative : Bool} {significand dropped : Nat} {mark : UInt8}
    (pointed : mark = 0x2E ∨ mark = 0x65 ∨ mark = 0x45) {rest left : List UInt8} {n : Number}
    (read : readAfterDigits negative significand dropped (mark :: rest) = .ok (n, left)) : n.IsFloat := by
  have peeked : peek (mark :: rest) = .ok (some mark, mark :: rest) := rfl
  have advanced : advance (mark :: rest) = .ok ((), rest) := rfl
  rw [readAfterDigits, run_bind peeked] at read
  rcases pointed with rfl | letter
  · simp only [if_true, run_bind advanced] at read
    exact readDecimals_gives _ _ _ _ _ _ read
  · have noPoint : mark ≠ 0x2E := by rcases letter with rfl | rfl <;> decide
    simp only [noPoint, letter, if_false, if_true, run_bind advanced] at read
    exact readExponent_gives _ _ _ _ _ _ read

theorem readUnsigned_pointed {negative : Bool} {digits : List UInt8} (filled : digits ≠ [])
    (each : ∀ b ∈ digits, isDigit b = true) {mark : UInt8} (pointed : mark = 0x2E ∨ mark = 0x65)
    {rest left : List UInt8} {n : Number}
    (read : readUnsigned negative (digits ++ mark :: rest) = .ok (n, left)) : n.IsFloat := by
  have noDigit : isDigit mark = false := by rcases pointed with rfl | rfl <;> rfl
  obtain ⟨b, more, rfl⟩ := List.exists_cons_of_ne_nil filled
  obtain ⟨digit, others⟩ := List.forall_mem_cons.mp each
  have peeked : peek (b :: more ++ mark :: rest) = .ok (some b, b :: more ++ mark :: rest) := rfl
  rw [readUnsigned, run_bind peeked] at read
  dsimp only at read
  split at read
  · have advanced : advance (b :: more ++ mark :: rest) = .ok ((), more ++ mark :: rest) := rfl
    rw [run_bind advanced] at read
    cases more with
    | nil =>
        have next : peek (mark :: rest) = .ok (some mark, mark :: rest) := rfl
        rw [List.nil_append, run_bind next] at read
        simp only [noDigit, Bool.false_eq_true, if_false] at read
        exact readAfterDigits_pointed (pointed.imp_right .inl) read
    | cons c more =>
        have next : peek (c :: more ++ mark :: rest) = .ok (some c, c :: more ++ mark :: rest) := rfl
        rw [run_bind next] at read
        simp only [others c List.mem_cons_self, if_true] at read
        cases read
  · have ends : ∀ c, (mark :: rest).head? = some c → isDigit c = false := by
      intro c head
      cases head
      exact noDigit
    have taken := readDigits_append each ends
    rw [run_bind taken] at read
    exact readAfterDigits_pointed (pointed.imp_right .inl) read

theorem readNumber_floatText {x : Float} {rest left : List UInt8} {n : Number}
    (read : readNumber (utf8Bytes (Number.floatText x) ++ rest) = .ok (n, left)) : n.IsFloat := by
  obtain ⟨sign, body, text, signed, digits, mark, more, split, filled, each, pointed⟩ := floatText_pointed x
  rw [text, utf8Bytes_append, split] at read
  rcases signed with rfl | rfl
  · have dash : utf8Bytes "-" = [0x2D] := by decide
    have peeked : peek (0x2D :: (digits ++ mark :: (more ++ rest))) =
        .ok (some 0x2D, 0x2D :: (digits ++ mark :: (more ++ rest))) := rfl
    have advanced : advance (0x2D :: (digits ++ mark :: (more ++ rest))) =
        .ok ((), digits ++ mark :: (more ++ rest)) := rfl
    simp only [dash, List.cons_append, List.nil_append, List.append_assoc] at read
    rw [readNumber, run_bind peeked, if_pos (by rfl), run_bind advanced] at read
    exact readUnsigned_pointed filled each pointed read
  · have none : utf8Bytes "" = [] := by decide
    simp only [none, List.cons_append, List.nil_append, List.append_assoc] at read
    obtain ⟨b, others, rfl⟩ := List.exists_cons_of_ne_nil filled
    have noDash : b ≠ 0x2D := by
      rintro rfl
      cases each 0x2D List.mem_cons_self
    have peeked : peek (b :: others ++ mark :: (more ++ rest)) =
        .ok (some b, b :: others ++ mark :: (more ++ rest)) := rfl
    rw [readNumber, run_bind peeked, if_neg (by simpa using noDash)] at read
    exact readUnsigned_pointed filled each pointed read

/-- The value is a whole number from zero up to below a bound. -/
def Value.NatBelow (bound : Nat) (v : Value) : Prop :=
  ∃ n fits, v = .number (.int n fits) ∧ 0 ≤ n ∧ n < bound

theorem readUnsignedBelow_reads (type : String) {bound : Nat} {n : Int} (fits) (least : 0 ≤ n) (below : n < bound) :
    (readUnsignedBelow type bound).Reads (.number (.int n fits)) n.toNat := by
  intro ws text rest blank spelled ends
  obtain ⟨b, begins, first⟩ := run_firstOfValue blank spelled rest
  change b = 0x2D ∨ isDigit b = true at begins
  cases spelled
  rw [readUnsignedBelow, first, if_pos begins, run_bind (readNumber_intText fits ends)]
  simp only [least, below, and_self, if_true]
  rfl

theorem readUnsignedBelow_refuses (type : String) {bound : Nat} {v : Value} (other : ¬v.NatBelow bound) :
    (readUnsignedBelow type bound).Refuses v := by
  intro ws text rest blank spelled ends result read
  obtain ⟨b, begins, first⟩ := run_firstOfValue blank spelled rest
  rw [readUnsignedBelow, first] at read
  split at read
  · cases spelled with
    | @int n fits =>
        rw [run_bind (readNumber_intText fits ends)] at read
        have outside : ¬(0 ≤ n ∧ n < bound) := fun inside => other ⟨n, fits, rfl, inside⟩
        simp only [outside, if_false] at read
        cases read
    | float =>
        obtain ⟨number, middle, taken, more⟩ := bind_eq_ok_iff.mp read
        obtain ⟨x, rfl⟩ := readNumber_floatText taken
        cases more
    | string | array | object | null | yes | no =>
        cases begins
        simp_all [isDigit]
  · exact not_failOnNext read

theorem readUInt64_reads {n : Int} (fits) (least : 0 ≤ n) :
    readUInt64.Reads (.number (.int n fits)) (UInt64.ofNat n.toNat) := by
  have read := (readUnsignedBelow_reads "u64" fits least fits.2).then_pure UInt64.ofNat
  rwa [bind_pure_comp] at read

theorem readUInt64_refuses {v : Value} (other : ¬v.NatBelow UInt64.size) : readUInt64.Refuses v := by
  have refuse := (readUnsignedBelow_refuses "u64" other).then fun n => pure (UInt64.ofNat n)
  rwa [bind_pure_comp] at refuse

theorem readUInt64_settles (v : Value) : readUInt64.Settles v := by
  by_cases whole : v.NatBelow UInt64.size
  · obtain ⟨n, fits, rfl, least, -⟩ := whole
    exact .inl ⟨_, readUInt64_reads fits least⟩
  · exact .inr (readUInt64_refuses whole)

end ChainRelay.Json
