import ChainRelay.Proofs.Json.Tokens

/-! # Reading JSON values

Every spelling of a value that fits is read as that value. The lists and objects are read item by item,
so the same holds for readers of known types that read their parts from spelled values.
-/

namespace ChainRelay.Json

open Reader

/-- The reader takes every spelling of the value, with blanks before it, and gives the result. -/
def Reader.Reads (r : Reader α) (v : Value) (a : α) : Prop :=
  ∀ ws text rest, Blank ws → Spells v text → EndsNumber rest → r (ws ++ text ++ rest) = .ok (a, rest)

theorem Reader.below_ok {r : Reader α} {bytes : List UInt8} {result : α × List UInt8}
    (read : r bytes = .ok result) (step : Step) : below step r bytes = .ok result := by
  simp only [below, read]

theorem endsNumber_token {ws : List UInt8} (blank : Blank ws) {b : UInt8}
    (token : b = 0x2C ∨ b = 0x5D ∨ b = 0x7D) (rest : List UInt8) : EndsNumber (ws ++ b :: rest) := by
  intro c first
  cases ws with
  | nil =>
      cases first
      rcases token with rfl | rfl | rfl <;> decide
  | cons w ws =>
      cases first
      have here := blank c List.mem_cons_self
      simp only [isJsonBlank, Bool.or_eq_true, beq_iff_eq] at here
      rcases here with ((rfl | rfl) | rfl) | rfl <;> decide

/-- The text begins like a number: with a dash or a digit. -/
def StartsNumber (s : String) : Prop :=
  ∃ b rest, utf8Bytes s = b :: rest ∧ (b = 0x2D ∨ isDigit b = true)

theorem StartsNumber.append {s : String} (starts : StartsNumber s) (t : String) : StartsNumber (s ++ t) := by
  obtain ⟨b, rest, split, first⟩ := starts
  exact ⟨b, rest ++ utf8Bytes t, by rw [utf8Bytes_append, split, List.cons_append], first⟩

theorem startsNumber_dash (s : String) : StartsNumber ("-" ++ s) :=
  StartsNumber.append ⟨0x2D, [], by decide, .inl rfl⟩ s

theorem startsNumber_repr (n : Nat) : StartsNumber (Nat.repr n) := by
  obtain ⟨b, rest, split⟩ := List.exists_cons_of_ne_nil (digitBytes_ne_nil n)
  refine ⟨b, rest, by rw [utf8Bytes_repr, split], .inr ?_⟩
  exact isDigit_digitBytes n b (split ▸ List.mem_cons_self)

theorem startsNumber_take {s : String} (starts : StartsNumber s) {count : Nat} (some' : 0 < count) :
    StartsNumber (String.ofList (s.toList.take count)) := by
  obtain ⟨b, rest, split, first⟩ := starts
  rw [utf8Bytes_eq] at split
  obtain ⟨count, rfl⟩ := Nat.exists_eq_succ_of_ne_zero (Nat.ne_zero_of_lt some')
  cases chars : s.toList with
  | nil =>
      rw [chars] at split
      cases split
  | cons c cs =>
      have filled : String.utf8EncodeChar c ≠ [] := by
        rw [← List.length_pos_iff, String.length_utf8EncodeChar]
        exact c.utf8Size_pos
      obtain ⟨b', more, encoded⟩ := List.exists_cons_of_ne_nil filled
      rw [chars, List.flatMap_cons, encoded, List.cons_append, List.cons.injEq] at split
      obtain ⟨rfl, -⟩ := split
      rw [List.take_succ_cons, StartsNumber, utf8Bytes_ofList, List.flatMap_cons, encoded]
      exact ⟨b', _, rfl, first⟩

theorem startsNumber_intText (n : Int) : StartsNumber (Number.intText n) := by
  unfold Number.intText
  split
  · exact startsNumber_dash _
  · exact startsNumber_repr _

theorem startsNumber_floatText (x : Float) : StartsNumber (Number.floatText x) := by
  have zero (s : String) : StartsNumber ("0." ++ s) := .append ⟨0x30, [0x2E], by decide, .inr (by decide)⟩ s
  unfold Number.floatText
  dsimp only
  split
  · exact startsNumber_dash _
  rw [String.empty_append]
  split
  · exact zero "0"
  split
  · split
    · exact ((startsNumber_repr _).append _).append _
    split
    · rename_i point
      exact ((startsNumber_take (startsNumber_repr _) (by omega)).append _).append _
    · exact (zero _).append _
  · exact ((((startsNumber_take (startsNumber_repr _) Nat.one_pos).append _).append _).append _)

theorem token_of_isDigit {b : UInt8} (digit : isDigit b = true) : isJsonBlank b = false := by
  rw [Bool.eq_false_iff]
  intro blank
  simp only [isJsonBlank, Bool.or_eq_true, beq_iff_eq] at blank
  rcases blank with ((rfl | rfl) | rfl) | rfl <;> cases digit

theorem StartsNumber.head {s : String} (starts : StartsNumber s) :
    ∃ b rest, utf8Bytes s = b :: rest ∧ isJsonBlank b = false ∧ b ≠ 0x5D := by
  obtain ⟨b, rest, split, first⟩ := starts
  refine ⟨b, rest, split, ?_⟩
  rcases first with rfl | digit
  · decide
  · exact ⟨token_of_isDigit digit, fun same => by subst same; cases digit⟩

/-- The first byte of a value is no blank and ends nothing. -/
theorem Spells.head {v : Value} {text : List UInt8} (spelled : Spells v text) :
    ∃ b rest, text = b :: rest ∧ isJsonBlank b = false ∧ b ≠ 0x5D := by
  cases spelled with
  | null => exact ⟨_, _, rfl, by decide, by decide⟩
  | yes => exact ⟨_, _, rfl, by decide, by decide⟩
  | no => exact ⟨_, _, rfl, by decide, by decide⟩
  | int => exact (startsNumber_intText _).head
  | float => exact (startsNumber_floatText _).head
  | string => exact ⟨_, _, utf8Bytes_quoted _, by decide, by decide⟩
  | array => exact ⟨_, _, rfl, by decide, by decide⟩
  | object => exact ⟨_, _, rfl, by decide, by decide⟩

/-! ## Lists -/

theorem nextItem_next (first : Bool) {before after : List UInt8} (blank : Blank before)
    (blank' : Blank after) {b : UInt8} (token : isJsonBlank b = false) (item : b ≠ 0x5D)
    (rest : List UInt8) :
    nextItem first (before ++ comma first ++ after ++ b :: rest) = .ok (true, b :: rest) := by
  cases first with
  | true =>
      have both : Blank (before ++ after) := List.forall_mem_append.mpr ⟨blank, blank'⟩
      simp only [comma, if_true, List.append_nil, nextItem, run_bind (nextToken_blank both token rest), item,
        if_false]
      rfl
  | false =>
      have separator := nextToken_blank blank (b := 0x2C) (by decide) (after ++ b :: rest)
      have advanced : advance (0x2C :: (after ++ b :: rest)) = .ok ((), after ++ b :: rest) := rfl
      have notEnd : ¬(0x2C : UInt8) = 0x5D := by decide
      have bytes : before ++ comma false ++ after ++ b :: rest = before ++ 0x2C :: (after ++ b :: rest) := by
        simp [comma]
      rw [bytes]
      simp only [nextItem, run_bind separator, notEnd, if_false, if_true, Bool.false_eq_true,
        run_bind advanced, run_bind (nextToken_blank blank' token rest), item]
      rfl

theorem nextItem_done {first : Bool} {ws : List UInt8} (blank : Blank ws) (rest : List UInt8) :
    nextItem first (ws ++ 0x5D :: rest) = .ok (false, 0x5D :: rest) := by
  have token := nextToken_blank blank (b := 0x5D) (by decide) rest
  simp only [nextItem, run_bind token, if_true]
  rfl

theorem SpellsItems.endsNumber {vs : List Value} {body : List UInt8}
    (spelled : SpellsItems false vs body) (rest : List UInt8) :
    EndsNumber (body ++ 0x5D :: rest) := by
  cases spelled with
  | done blank => exact endsNumber_token blank (.inr (.inl rfl)) rest
  | next blank _ _ _ =>
      simp only [comma, Bool.false_eq_true, if_false, List.append_assoc, List.singleton_append]
      exact endsNumber_token blank (.inl rfl) _

/-- The items of a spelled list are read one after the other. -/
theorem readItems_spelled {item : Reader α} (value : β → Value) (result : β → α) {xs : List β}
    (each : ∀ x ∈ xs, item.Reads (value x) (result x)) {first : Bool} {body : List UInt8}
    (spelled : SpellsItems first (xs.map value) body) {index fuel : Nat} (start : (index == 0) = first)
    (enough : xs.length < fuel) (rest : List UInt8) :
    readItems item fuel index (body ++ 0x5D :: rest) = .ok (xs.map result, 0x5D :: rest) := by
  induction xs generalizing first body index fuel with
  | nil =>
      cases spelled with
      | done blank =>
          obtain ⟨fuel, rfl⟩ := Nat.exists_eq_succ_of_ne_zero (Nat.ne_zero_of_lt enough)
          simp only [readItems, start, run_bind (nextItem_done blank rest), Bool.false_eq_true, if_false]
          rfl
  | cons x xs ih =>
      obtain ⟨fuel, rfl⟩ := Nat.exists_eq_succ_of_ne_zero (Nat.ne_zero_of_lt enough)
      obtain ⟨here, others⟩ := List.forall_mem_cons.mp each
      cases spelled with
      | @next _ _ _ before after text more blank blank' spelled later =>
          obtain ⟨b, text', split, token, notEnd⟩ := spelled.head
          have entered := nextItem_next first blank blank' token notEnd
            (text' ++ (more ++ 0x5D :: rest))
          have read := here [] text (more ++ 0x5D :: rest) blank_nil spelled (later.endsNumber rest)
          have read' : item (b :: (text' ++ (more ++ 0x5D :: rest))) = .ok (result x, more ++ 0x5D :: rest) := by
            simpa [split] using read
          have below := below_ok read' (.index index)
          have fewer : xs.length < fuel := by simpa using enough
          have tail := ih others later (rfl : (index + 1 == 0) = false) fewer
          have bytes : before ++ comma first ++ after ++ text ++ more ++ 0x5D :: rest =
              before ++ comma first ++ after ++ b :: (text' ++ (more ++ 0x5D :: rest)) := by simp [split]
          rw [bytes]
          simp only [readItems, start, run_bind entered, if_true, run_bind below, run_bind tail]
          rfl

/-! ## Objects -/

theorem nextName_next (first : Bool) {before after : List UInt8} (blank : Blank before)
    (blank' : Blank after) (name : String) (rest : List UInt8) :
    nextName first (before ++ comma first ++ after ++ utf8Bytes (quoted name) ++ rest) =
      .ok (some name, rest) := by
  refine below_ok ?_ .unknown
  have text : utf8Bytes (quoted name) ++ rest = 0x22 :: (content name ++ 0x22 :: rest) := by
    simp [utf8Bytes_quoted]
  have opened : advance (0x22 :: (content name ++ 0x22 :: rest)) = .ok ((), content name ++ 0x22 :: rest) := rfl
  have named : (some <$> readString) (content name ++ 0x22 :: rest) = .ok (some name, rest) := by
    rw [← bind_pure_comp, run_bind (readString_content name rest)]
    rfl
  have notEnd : ¬(0x22 : UInt8) = 0x7D := by decide
  cases first with
  | true =>
      have both : Blank (before ++ after) := List.forall_mem_append.mpr ⟨blank, blank'⟩
      have token := nextToken_blank both (b := 0x22) (by decide) (content name ++ 0x22 :: rest)
      have bytes : before ++ comma true ++ after ++ utf8Bytes (quoted name) ++ rest =
          before ++ after ++ 0x22 :: (content name ++ 0x22 :: rest) := by simp [comma, utf8Bytes_quoted]
      rw [bytes]
      simp only [run_bind token, notEnd, if_false, if_true, run_bind opened]
      exact named
  | false =>
      have separator := nextToken_blank blank (b := 0x2C) (by decide)
        (after ++ 0x22 :: (content name ++ 0x22 :: rest))
      have advanced : advance (0x2C :: (after ++ 0x22 :: (content name ++ 0x22 :: rest))) =
        .ok ((), after ++ 0x22 :: (content name ++ 0x22 :: rest)) := rfl
      have token := nextToken_blank blank' (b := 0x22) (by decide) (content name ++ 0x22 :: rest)
      have noEnd : ¬(0x2C : UInt8) = 0x7D := by decide
      have bytes : before ++ comma false ++ after ++ utf8Bytes (quoted name) ++ rest =
          before ++ 0x2C :: (after ++ 0x22 :: (content name ++ 0x22 :: rest)) := by
        simp [comma, utf8Bytes_quoted]
      rw [bytes]
      simp only [run_bind separator, noEnd, if_false, if_true, Bool.false_eq_true, run_bind advanced,
        run_bind token, run_bind opened]
      exact named

theorem nextName_done {first : Bool} {ws : List UInt8} (blank : Blank ws) (rest : List UInt8) :
    nextName first (ws ++ 0x7D :: rest) = .ok (none, 0x7D :: rest) := by
  have token := nextToken_blank blank (b := 0x7D) (by decide) rest
  refine below_ok ?_ .unknown
  simp only [run_bind token, if_true]
  rfl

theorem SpellsMembers.endsNumber {members : Members} {body : List UInt8}
    (spelled : SpellsMembers false members body) (rest : List UInt8) :
    EndsNumber (body ++ 0x7D :: rest) := by
  cases spelled with
  | done blank => exact endsNumber_token blank (.inr (.inr rfl)) rest
  | next blank _ _ _ _ _ =>
      simp only [comma, Bool.false_eq_true, if_false, List.append_assoc, List.singleton_append]
      exact endsNumber_token blank (.inl rfl) _

theorem readMember_spelled {r : Reader α} {v : Value} {a : α} (reads : r.Reads v a) (name : String)
    {gap gap' text rest : List UInt8} (blank : Blank gap) (blank' : Blank gap')
    (spelled : Spells v text) (ends : EndsNumber rest) :
    readMember name r (gap ++ [0x3A] ++ gap' ++ text ++ rest) = .ok (a, rest) := by
  have token := nextToken_blank blank (b := 0x3A) (by decide) (gap' ++ text ++ rest)
  have colon : readColon (gap ++ 0x3A :: (gap' ++ text ++ rest)) = .ok ((), gap' ++ text ++ rest) := by
    simp only [readColon, run_bind token, if_true]
    rfl
  have bytes : gap ++ [0x3A] ++ gap' ++ text ++ rest = gap ++ 0x3A :: (gap' ++ text ++ rest) := by simp
  rw [bytes, readMember, run_bind colon]
  exact below_ok (reads gap' text rest blank' spelled ends) _

/-- A later member comes behind all earlier ones. -/
theorem insert_ascending {name : String} {v : Value} {members : Members}
    (ascending : ∀ other ∈ members.names, other < name) :
    members.insert name v = members ++ [(name, v)] := by
  induction members with
  | nil => rfl
  | cons m rest ih =>
      obtain ⟨other, old⟩ := m
      have less : other < name := ascending other List.mem_cons_self
      have notLess : ¬name < other := String.lt_asymm less
      have different : ¬name = other := fun same => String.lt_irrefl _ (same ▸ less)
      rw [Members.insert, if_neg notLess, if_neg different, List.cons_append,
        ih fun later member => ascending later (List.mem_cons_of_mem _ member)]

/-- The same members with other values. -/
def Members.mapValues (f : Value → Value) (members : Members) : Members :=
  members.map fun m => (m.1, f m.2)

/-- The members of a spelled object are read one after the other. -/
theorem readMembers_spelled {r : Reader Value} (result : Value → Value) {members : Members}
    (each : ∀ m ∈ members, r.Reads m.2 (result m.2)) {first : Bool} {body : List UInt8}
    (spelled : SpellsMembers first members body) {found : Members}
    (ascending : (found ++ members).names.Pairwise (· < ·)) {fuel : Nat}
    (enough : members.length < fuel) (rest : List UInt8) :
    readMembers r fuel first found (body ++ 0x7D :: rest) =
      .ok (found ++ members.mapValues result, 0x7D :: rest) := by
  induction members generalizing first body found fuel with
  | nil =>
      cases spelled with
      | done blank =>
          obtain ⟨fuel, rfl⟩ := Nat.exists_eq_succ_of_ne_zero (Nat.ne_zero_of_lt enough)
          simp only [readMembers, run_bind (nextName_done blank rest), Members.mapValues, List.map_nil,
            List.append_nil]
          rfl
  | cons m members ih =>
      obtain ⟨fuel, rfl⟩ := Nat.exists_eq_succ_of_ne_zero (Nat.ne_zero_of_lt enough)
      obtain ⟨here, others⟩ := List.forall_mem_cons.mp each
      cases spelled with
      | @next _ name v _ before after gap gap' text more blank blank' blankGap blankGap' value later =>
          have named := nextName_next first blank blank' name
            (gap ++ [0x3A] ++ gap' ++ text ++ (more ++ 0x7D :: rest))
          have member := readMember_spelled here name blankGap blankGap' value (later.endsNumber rest)
          have before_name : ∀ other ∈ found.names, other < name := by
            intro other inside
            simp only [Members.names, List.map_append, List.map_cons] at ascending inside
            exact (List.pairwise_append.mp ascending).2.2 other inside name List.mem_cons_self
          have ascending' : (found ++ [(name, result v)] ++ members).names.Pairwise (· < ·) := by
            simpa [Members.names] using ascending
          have fewer : members.length < fuel := by simpa using enough
          have tail := ih others later ascending' fewer
          have bytes : before ++ comma first ++ after ++ utf8Bytes (quoted name) ++ gap ++ [0x3A] ++ gap' ++
              text ++ more ++ 0x7D :: rest = before ++ comma first ++ after ++ utf8Bytes (quoted name) ++
                (gap ++ [0x3A] ++ gap' ++ text ++ (more ++ 0x7D :: rest)) := by simp
          rw [bytes]
          simp only [readMembers, run_bind named, run_bind member, insert_ascending before_name, tail]
          simp [Members.mapValues]

/-! ## Values -/

theorem closeList_done (rest : List UInt8) : closeList (0x5D :: rest) = .ok ((), rest) := by
  have token := nextToken_blank blank_nil (b := 0x5D) (by decide) rest
  rw [List.nil_append] at token
  simp only [closeList, run_bind token, if_true]
  rfl

theorem closeObject_done (rest : List UInt8) : closeObject (0x7D :: rest) = .ok ((), rest) := by
  have token := nextToken_blank blank_nil (b := 0x7D) (by decide) rest
  rw [List.nil_append] at token
  simp only [closeObject, run_bind token, if_true]
  rfl

theorem length_items {first : Bool} {vs : List Value} {body : List UInt8}
    (spelled : SpellsItems first vs body) : vs.length ≤ body.length := by
  induction vs generalizing first body with
  | nil => exact Nat.zero_le _
  | cons v vs ih =>
      cases spelled with
      | next _ _ item later =>
          obtain ⟨b, rest, rfl, -⟩ := item.head
          have tail := ih later
          simp
          omega

theorem length_members {first : Bool} {members : Members} {body : List UInt8}
    (spelled : SpellsMembers first members body) : members.length ≤ body.length := by
  induction members generalizing first body with
  | nil => exact Nat.zero_le _
  | cons m members ih =>
      cases spelled with
      | next _ _ _ _ value later =>
          obtain ⟨b, rest, rfl, -⟩ := value.head
          have tail := ih later
          simp
          omega

/-- A list of spelled items, up to its closing bracket. -/
theorem readItems_body {item : Reader α} (wrap : List α → γ) (value : β → Value) (result : β → α) {xs : List β}
    (each : ∀ x ∈ xs, item.Reads (value x) (result x)) {body : List UInt8}
    (spelled : SpellsItems true (xs.map value) body) (rest : List UInt8) :
    (do
      let items ← readItems item (← bound) 0
      closeList
      return wrap items) (body ++ 0x5D :: rest) = .ok (wrap (xs.map result), rest) := by
  have bounded : bound (body ++ 0x5D :: rest) =
      .ok ((body ++ 0x5D :: rest).length + 1, body ++ 0x5D :: rest) := rfl
  have enough : xs.length < (body ++ 0x5D :: rest).length + 1 := by
    have count := length_items spelled
    simp at count ⊢
    omega
  rw [run_bind bounded, run_bind (readItems_spelled value result each spelled rfl enough rest),
    run_bind (closeList_done rest)]
  rfl

/-- The members of a spelled object, up to its closing brace. -/
theorem readMembers_body {r : Reader Value} (wrap : Members → α) (result : Value → Value) {members : Members}
    (each : ∀ m ∈ members, r.Reads m.2 (result m.2)) {body : List UInt8}
    (spelled : SpellsMembers true members body) (ascending : members.names.Pairwise (· < ·))
    (rest : List UInt8) :
    (do
      let members ← readMembers r (← bound) true []
      closeObject
      return wrap members) (body ++ 0x7D :: rest) = .ok (wrap (members.mapValues result), rest) := by
  have bounded : bound (body ++ 0x7D :: rest) =
      .ok ((body ++ 0x7D :: rest).length + 1, body ++ 0x7D :: rest) := rfl
  have enough : members.length < (body ++ 0x7D :: rest).length + 1 := by
    have count := length_members spelled
    simp at count ⊢
    omega
  have ascending' : ([] ++ members : Members).names.Pairwise (· < ·) := ascending
  have read := readMembers_spelled result each spelled ascending' enough rest
  rw [List.nil_append] at read
  rw [run_bind bounded, run_bind read, run_bind (closeObject_done rest)]
  rfl

/-- A reading that depends on the first byte of a value. -/
theorem run_nextToken {f : Option UInt8 → Reader α} {ws : List UInt8} (blank : Blank ws) {b : UInt8}
    (token : isJsonBlank b = false) (rest : List UInt8) :
    (nextToken >>= f) (ws ++ b :: rest) = f (some b) (b :: rest) :=
  run_bind (nextToken_blank blank token rest)

/-! ## Values -/

-- The equations of `readValue` are large; they are made here, once for all the proofs below.
attribute [local simp] readValue

theorem readValue_null (room : Nat) : (readValue room).Reads .null .null := by
  intro ws text rest blank spelled ends
  cases spelled
  have bytes : ws ++ utf8Bytes "null" ++ rest = ws ++ 0x6E :: 0x75 :: 0x6C :: 0x6C :: rest := by
    rw [List.append_assoc]
    rfl
  unfold readValue
  rw [bytes, run_nextToken blank (by decide)]
  rfl

theorem readValue_bool (room : Nat) (b : Bool) : (readValue room).Reads (.bool b) (.bool b) := by
  intro ws text rest blank spelled ends
  cases spelled with
  | yes =>
      have bytes : ws ++ utf8Bytes "true" ++ rest = ws ++ 0x74 :: 0x72 :: 0x75 :: 0x65 :: rest := by
        rw [List.append_assoc]
        rfl
      unfold readValue
      rw [bytes, run_nextToken blank (by decide)]
      rfl
  | no =>
      have bytes : ws ++ utf8Bytes "false" ++ rest = ws ++ 0x66 :: 0x61 :: 0x6C :: 0x73 :: 0x65 :: rest := by
        rw [List.append_assoc]
        rfl
      unfold readValue
      rw [bytes, run_nextToken blank (by decide)]
      rfl

/-- The number is read from its own text, as `back`. -/
def Number.ReadsBack (n back : Number) : Prop :=
  ∀ rest, EndsNumber rest → readNumber (utf8Bytes n.text ++ rest) = .ok (back, rest)

theorem Number.readsBack_int {n : Int} (fits) : ReadsBack (.int n fits) (.int n fits) :=
  fun _ ends => readNumber_intText fits ends

theorem readValue_number (room : Nat) {n back : Number} (reads : n.ReadsBack back) :
    (readValue room).Reads (.number n) (.number back) := by
  intro ws text rest blank spelled ends
  have starts : text = utf8Bytes n.text ∧ StartsNumber n.text := by
    cases spelled with
    | int => exact ⟨rfl, startsNumber_intText _⟩
    | float => exact ⟨rfl, startsNumber_floatText _⟩
  obtain ⟨rfl, b, digits, split, first⟩ := starts
  have token : isJsonBlank b = false := by
    rcases first with rfl | digit
    · rfl
    · exact token_of_isDigit digit
  have noWord : ¬b = 0x6E ∧ ¬b = 0x74 ∧ ¬b = 0x66 := by
    refine ⟨?_, ?_, ?_⟩ <;> rintro rfl <;> rcases first with same | digit <;> simp_all [isDigit]
  have read := reads rest ends
  have bytes : ws ++ utf8Bytes n.text ++ rest = ws ++ b :: (digits ++ rest) := by
    rw [split, List.append_assoc, List.cons_append]
  rw [split, List.cons_append] at read
  unfold readValue
  rw [bytes, run_nextToken blank token]
  simp only [noWord, if_false, first, if_true, run_bind read]
  rfl

theorem readValue_string (room : Nat) (s : String) :
    (readValue room).Reads (.string s) (.string s) := by
  intro ws text rest blank spelled ends
  cases spelled
  have bytes : ws ++ utf8Bytes (quoted s) ++ rest = ws ++ 0x22 :: (content s ++ 0x22 :: rest) := by
    simp [utf8Bytes_quoted]
  have opened : advance (0x22 :: (content s ++ 0x22 :: rest)) = .ok ((), content s ++ 0x22 :: rest) := rfl
  unfold readValue
  rw [bytes, run_nextToken blank (by decide)]
  simp +decide only [if_false, if_true, run_bind opened, run_bind (readString_content s rest)]
  rfl

theorem readValue_array {room : Nat} (result : Value → Value) {items : List Value}
    (each : ∀ v ∈ items, (readValue room).Reads v (result v)) :
    (readValue (room + 1)).Reads (.array items) (.array (items.map result)) := by
  intro ws text rest blank spelled ends
  cases spelled with
  | @array _ body spelled =>
      have listed : SpellsItems true (items.map id) body := by rwa [List.map_id]
      have read := readItems_body Value.array id result each listed rest
      have bytes : ws ++ (0x5B :: body ++ [0x5D]) ++ rest = ws ++ 0x5B :: (body ++ 0x5D :: rest) := by simp
      have opened : advance (0x5B :: (body ++ 0x5D :: rest)) = .ok ((), body ++ 0x5D :: rest) := rfl
      unfold readValue
      rw [bytes, run_nextToken blank (by decide)]
      simp +decide only [if_false, if_true, run_bind opened]
      exact read

theorem readValue_object {room : Nat} (result : Value → Value) {members : Members}
    (ascending : members.names.Pairwise (· < ·)) (each : ∀ m ∈ members, (readValue room).Reads m.2 (result m.2)) :
    (readValue (room + 1)).Reads (.object members) (.object (members.mapValues result)) := by
  intro ws text rest blank spelled ends
  cases spelled with
  | @object _ body spelled =>
      have read := readMembers_body Value.object result each spelled ascending rest
      have bytes : ws ++ (0x7B :: body ++ [0x7D]) ++ rest = ws ++ 0x7B :: (body ++ 0x7D :: rest) := by simp
      have opened : advance (0x7B :: (body ++ 0x7D :: rest)) = .ok ((), body ++ 0x7D :: rest) := rfl
      unfold readValue
      rw [bytes, run_nextToken blank (by decide)]
      simp +decide only [if_false, if_true, run_bind opened]
      exact read

/-- A value that fits is read from each of its spellings. -/
theorem Value.Fits.reads {room : Nat} {v : Value} (fits : v.Fits room) :
    (readValue room).Reads v v := by
  induction fits with
  | null => exact readValue_null _
  | bool => exact readValue_bool _ _
  | @int _ n fits => exact readValue_number _ (Number.readsBack_int fits)
  | string => exact readValue_string _ _
  | @array _ items _ ih =>
      have read := readValue_array id ih
      rwa [List.map_id] at read
  | @object _ members ascending _ ih =>
      have read := readValue_object id ascending ih
      have same : members.mapValues id = members := List.map_id _
      rwa [same] at read

end ChainRelay.Json
