import ChainRelay.Proofs.Json.Deciding
import ChainRelay.Proofs.Json.Decoding

/-! # Containers by their parts

An object is a row of names with values, a list a row of values. A record that ignores unknown names is read
from an object member by member, each put into the free slot of its name or left out, and from a list slot by
slot. What is read depends on the names and on what the slots make of the values, and on nothing else.
-/

namespace ChainRelay.Json

open Reader

variable {first : Bool} {s : String} {front name gap text body others rest : List UInt8}

/-- Members up to the end of their object: their names and the texts of their values. -/
inductive Entries : (first : Bool) → List (String × List UInt8) → List UInt8 → Prop where
  | done {first : Bool} {ws : List UInt8} (blank : Blank ws) : Entries first [] ws
  | next {first : Bool} {s : String} {entries : List (String × List UInt8)}
      {front name gap text others : List UInt8} (lead : Lead first front)
      (named : StringDenotes name (utf8Bytes s)) (colon : Colon gap) (value : ValueText text)
      (more : Entries false entries others) :
      Entries first ((s, text) :: entries) (front ++ 0x22 :: name ++ gap ++ text ++ others)

/-- Items up to the end of their list, by their texts. -/
inductive Items : (first : Bool) → List (List UInt8) → List UInt8 → Prop where
  | done {first : Bool} {ws : List UInt8} (blank : Blank ws) : Items first [] ws
  | next {first : Bool} {texts : List (List UInt8)} {front text others : List UInt8} (lead : Lead first front)
      (item : ValueText text) (more : Items false texts others) : Items first (text :: texts) (front ++ text ++ others)

theorem Entries.members {entries : List (String × List UInt8)} (listed : Entries first entries body) :
    MembersText first body := by
  induction listed with
  | done blank => exact .done blank
  | next lead named colon value _ ih => exact .next lead named.stringRest colon value ih

theorem Items.items {texts : List (List UInt8)} (listed : Items first texts body) : ItemsText first body := by
  induction listed with
  | done blank => exact .done blank
  | next lead item _ ih => exact .next lead item ih

/-- Each list has its items. -/
theorem ItemsText.exists_items {first : Bool} {body : List UInt8} (items : ItemsText first body) :
    ∃ texts, Items first texts body := by
  cases items with
  | done blank => exact ⟨[], .done blank⟩
  | next lead item more =>
      obtain ⟨texts, listed⟩ := more.exists_items
      exact ⟨_ :: texts, .next lead item listed⟩
termination_by body.length
decreasing_by
  have longer := List.length_pos_iff.mpr item.ne_nil
  simp only [List.length_append]
  omega

/-! ## Names and colons -/

theorem nextName_iff (lead : Lead first front) (named : StringRest name) {result : Option String × List UInt8} :
    nextName first (front ++ 0x22 :: name ++ rest) = .ok result ↔
      ∃ s, StringDenotes name (utf8Bytes s) ∧ result = (some s, rest) := by
  obtain ⟨before, after, blank, blank', rfl⟩ := lead
  have noEnd : ¬(0x22 : UInt8) = 0x7D := by decide
  have named' : (some <$> readString) (name ++ rest) = .ok result ↔
      ∃ s, StringDenotes name (utf8Bytes s) ∧ result = (some s, rest) := by
    obtain ⟨found, left⟩ := result
    rw [← bind_pure_comp, bind_eq_ok_iff]
    constructor
    · rintro ⟨s, middle, read, same⟩
      obtain ⟨denotes, rfl⟩ := (readString_iff named).mp read
      cases same
      exact ⟨s, denotes, rfl⟩
    · rintro ⟨s, denotes, ⟨⟩⟩
      exact ⟨s, rest, (readString_iff named).mpr ⟨denotes, rfl⟩, rfl⟩
  rw [nextName, below_eq_ok_iff, ← named']
  cases first with
  | true =>
      have entered := nextToken_blank (blank.append blank') (b := 0x22) (by decide) (name ++ rest)
      simp only [comma, if_true, List.append_nil, List.append_assoc, List.cons_append] at entered ⊢
      simp only [run_bind entered, noEnd, if_false, if_true, run_advance]
  | false =>
      have separator := nextToken_blank blank (b := 0x2C) (by decide) (after ++ 0x22 :: (name ++ rest))
      have entered := nextToken_blank blank' (b := 0x22) (by decide) (name ++ rest)
      have noEnd' : ¬(0x2C : UInt8) = 0x7D := by decide
      simp only [comma, Bool.false_eq_true, if_false, List.append_assoc, List.cons_append, List.nil_append,
        run_bind separator, noEnd', if_true, run_advance, run_bind entered]

theorem readMember_iff {r : Reader α} {D : List UInt8 → α → Prop} (decodes : r.Decodes D) (s : String)
    (colon : Colon gap) (value : ValueText text) (ends : EndsNumber rest) {result : α × List UInt8} :
    readMember s r (gap ++ text ++ rest) = .ok result ↔ D text result.1 ∧ result.2 = rest := by
  obtain ⟨before, after, blank, blank', rfl⟩ := colon
  have token := nextToken_blank blank (b := 0x3A) (by decide) (after ++ text ++ rest)
  have read : readColon (before ++ 0x3A :: (after ++ text ++ rest)) = .ok ((), after ++ text ++ rest) := by
    simp only [readColon, run_bind token, if_true]
    rfl
  have bytes : before ++ 0x3A :: after ++ text ++ rest = before ++ 0x3A :: (after ++ text ++ rest) := by simp
  rw [bytes, readMember, run_bind read, below_eq_ok_iff]
  exact decodes blank' value ends

theorem nextItem_item (lead : Lead first front) (item : ValueText text) :
    nextItem first (front ++ text ++ rest) = .ok (true, text ++ rest) := by
  obtain ⟨before, after, blank, blank', rfl⟩ := lead
  obtain ⟨b, more, rfl, token, noEnd⟩ := item.head
  have entered := nextItem_next first blank blank' token noEnd (more ++ rest)
  simpa using entered

/-! ## One member -/

namespace Shape

variable {shape : Shape σ α} {room : Nat} {D : String → List UInt8 → (σ → σ) → Prop} {record filled : σ}
  {entries : List (String × List UInt8)} {texts : List (List UInt8)}

/-- What the slots make of values. -/
def Decodes (shape : Shape σ α) (room : Nat) (D : String → List UInt8 → (σ → σ) → Prop) : Prop :=
  ∀ slot ∈ shape.slots, (slot.read room).Decodes (D slot.name)

/-- A member is put into the slot of its name, which has to be free, or left out if there is none. -/
inductive Step (shape : Shape σ α) (D : String → List UInt8 → (σ → σ) → Prop) (record : σ) :
    String × List UInt8 → σ → Prop where
  | put {s : String} {text : List UInt8} {slot : Slot σ} {put : σ → σ}
      (declared : shape.slots.find? (·.name == s) = some slot) (free : slot.filled record = false)
      (reads : D s text put) : Step shape D record (s, text) (put record)
  | leave {s : String} {text : List UInt8} (unknown : shape.slots.find? (·.name == s) = none) :
      Step shape D record (s, text) record

/-- The members one after the other. -/
inductive Gathers (shape : Shape σ α) (D : String → List UInt8 → (σ → σ) → Prop) :
    σ → List (String × List UInt8) → σ → Prop where
  | done {record : σ} : Gathers shape D record [] record
  | next {record between filled : σ} {entry : String × List UInt8} {entries : List (String × List UInt8)}
      (step : shape.Step D record entry between) (more : Gathers shape D between entries filled) :
      Gathers shape D record (entry :: entries) filled

theorem readFields_step (lax : shape.strict = false) (decodes : shape.Decodes room D) (lead : Lead first front)
    (named : StringRest name) (colon : Colon gap) (value : ValueText text) (ends : EndsNumber rest) (fuel : Nat)
    {result : σ × List UInt8} :
    shape.readFields room (fuel + 1) first record (front ++ 0x22 :: name ++ gap ++ text ++ rest) = .ok result ↔
      ∃ s between, StringDenotes name (utf8Bytes s) ∧ shape.Step D record (s, text) between ∧
        shape.readFields room fuel false between rest = .ok result := by
  have bytes : front ++ 0x22 :: name ++ gap ++ text ++ rest = front ++ 0x22 :: name ++ (gap ++ text ++ rest) := by simp
  rw [bytes, readFields, bind_eq_ok_iff]
  constructor
  · rintro ⟨found, middle, entered, read⟩
    obtain ⟨s, denotes, ⟨⟩⟩ := (nextName_iff lead named).mp entered
    dsimp only at read
    cases declared : shape.slots.find? (·.name == s) with
    | none =>
        simp only [declared, lax, Bool.false_eq_true, if_false] at read
        obtain ⟨_, middle, member, later⟩ := bind_eq_ok_iff.mp read
        obtain ⟨-, left⟩ := (readMember_iff skipValue_decodes s colon value ends).mp member
        obtain rfl : middle = rest := left
        exact ⟨s, record, denotes, .leave declared, later⟩
    | some slot =>
        obtain ⟨member, rfl⟩ := slot_of_find? declared
        simp only [declared] at read
        split at read
        · exact absurd read not_failAfterObject
        · rename_i free
          obtain ⟨put, middle, taken, later⟩ := bind_eq_ok_iff.mp read
          obtain ⟨reads, left⟩ := (readMember_iff (decodes slot member) slot.name colon value ends).mp taken
          obtain rfl : middle = rest := left
          exact ⟨slot.name, put record, denotes, .put declared (by simpa using free) reads, later⟩
  · rintro ⟨s, between, denotes, step, read⟩
    refine ⟨some s, gap ++ text ++ rest, (nextName_iff lead named).mpr ⟨s, denotes, rfl⟩, ?_⟩
    dsimp only
    cases step with
    | leave unknown =>
        simp only [unknown, lax, Bool.false_eq_true, if_false]
        refine bind_eq_ok_iff.mpr ⟨(), rest, ?_, read⟩
        exact (readMember_iff skipValue_decodes s colon value ends).mpr ⟨trivial, rfl⟩
    | @put _ _ slot put declared free reads =>
        obtain ⟨member, rfl⟩ := slot_of_find? declared
        simp only [declared, free, Bool.false_eq_true, if_false]
        refine bind_eq_ok_iff.mpr ⟨put, rest, ?_, read⟩
        exact (readMember_iff (decodes slot member) slot.name colon value ends).mpr ⟨reads, rfl⟩

/-! ## All members -/

theorem readFields_iff (lax : shape.strict = false) (decodes : shape.Decodes room D)
    (listed : Entries first entries body) {fuel : Nat} (enough : body.length < fuel) {result : σ × List UInt8} :
    shape.readFields room fuel first record (body ++ 0x7D :: rest) = .ok result ↔
      shape.Gathers D record entries result.1 ∧ result.2 = 0x7D :: rest := by
  obtain ⟨fuel, rfl⟩ := Nat.exists_eq_succ_of_ne_zero (Nat.ne_zero_of_lt enough)
  -- Each member takes one unit of fuel and has more than one byte, so what is left stays enough.
  induction listed generalizing record fuel with
  | done blank =>
      rw [readFields, run_bind (nextName_done blank rest)]
      obtain ⟨filled, left⟩ := result
      constructor
      · rintro ⟨⟩
        exact ⟨.done, rfl⟩
      · rintro ⟨⟨⟩, rfl⟩
        rfl
  | @next first s entries front name gap text others lead named colon value more ih =>
      have bytes : front ++ 0x22 :: name ++ gap ++ text ++ others ++ 0x7D :: rest =
          front ++ 0x22 :: name ++ gap ++ text ++ (others ++ 0x7D :: rest) := List.append_assoc _ _ _
      rw [bytes, readFields_step lax decodes lead named.stringRest colon value more.members.endsNumber]
      have fewer : others.length < fuel := by
        simp at enough
        omega
      obtain ⟨fuel, rfl⟩ := Nat.exists_eq_succ_of_ne_zero (Nat.ne_zero_of_lt fewer)
      constructor
      · rintro ⟨s', between, denotes, step, read⟩
        obtain rfl := named.injective denotes
        obtain ⟨gathers, left⟩ := (ih fuel fewer).mp read
        exact ⟨.next step gathers, left⟩
      · rintro ⟨gathers, left⟩
        cases gathers with
        | next step more => exact ⟨s, _, named, step, (ih fuel fewer).mpr ⟨more, left⟩⟩

/-- Fields are read only from members with names that are texts. -/
theorem entries_of_readFields (lax : shape.strict = false) (decodes : shape.Decodes room D) :
    ∀ {first : Bool} {body : List UInt8}, MembersText first body → ∀ {fuel : Nat} {record : σ}
      {result : σ × List UInt8}, shape.readFields room fuel first record (body ++ 0x7D :: rest) = .ok result →
      ∃ entries, Entries first entries body
  | _, _, .done blank, _, _, _, _ => ⟨[], .done blank⟩
  | _, _, .next lead named colon value more, 0, _, _, read => by cases read
  | _, _, .next lead named colon value more, fuel + 1, record, result, read => by
      rw [List.append_assoc, readFields_step lax decodes lead named colon value more.endsNumber] at read
      obtain ⟨s, between, denotes, -, later⟩ := read
      obtain ⟨entries, listed⟩ := entries_of_readFields lax decodes more later
      exact ⟨_, .next lead denotes colon value listed⟩

/-! ## Lists -/

/-- The slots take one item each, in their order. -/
inductive InOrder (D : String → List UInt8 → (σ → σ) → Prop) : List (Slot σ) → σ → List (List UInt8) → σ → Prop where
  | done {record : σ} : InOrder D [] record [] record
  | next {slot : Slot σ} {slots : List (Slot σ)} {record filled : σ} {text : List UInt8} {texts : List (List UInt8)}
      {put : σ → σ} (reads : D slot.name text put) (more : InOrder D slots (put record) texts filled) :
      InOrder D (slot :: slots) record (text :: texts) filled

theorem not_failAfterList {p : Problem} {bytes : List UInt8} {result : β × List UInt8} :
    (failAfterList p : Reader β) bytes ≠ .ok result := by
  intro read
  have nothing : (failAfterList p : Reader β).Gives fun _ => False := failAfterList_gives
  exact nothing bytes result.1 result.2 read

/-- Fields that are all required take all the items, if what follows them ends the list. -/
theorem readInOrder_iff {slots : List (Slot σ)} {f : σ → Reader β} {P : σ → Prop} {result : β × List UInt8}
    (needed : ∀ slot ∈ slots, slot.required = true)
    (decodes : ∀ slot ∈ slots, (slot.read room).Decodes (D slot.name))
    (ends : ∀ {texts body record}, Items false texts body →
      (f record (body ++ 0x5D :: rest) = .ok result ↔ texts = [] ∧ P record))
    (listed : Items first texts body) (some' : first = true → slots ≠ []) (index : Nat) :
    (shape.readInOrder room slots index first record >>= f) (body ++ 0x5D :: rest) = .ok result ↔
      ∃ filled, InOrder D slots record texts filled ∧ P filled := by
  -- The slots decide how many items are read; the items only have to be there.
  induction slots generalizing first texts body record index with
  | nil =>
      obtain rfl : first = false := by simpa using some'
      rw [readInOrder, pure_bind, ends listed]
      constructor
      · rintro ⟨rfl, holds⟩
        exact ⟨record, .done, holds⟩
      · rintro ⟨_, ⟨⟩, holds⟩
        exact ⟨rfl, holds⟩
  | cons slot slots ih =>
      obtain ⟨required, needed⟩ := List.forall_mem_cons.mp needed
      obtain ⟨here, decodes⟩ := List.forall_mem_cons.mp decodes
      rw [readInOrder, bind_assoc]
      cases listed with
      | done blank =>
          rw [run_bind (nextItem_done blank rest)]
          simp only [Bool.false_eq_true, if_false, required, if_true]
          refine iff_of_false (fun read => ?_) nofun
          obtain ⟨_, _, failed, -⟩ := bind_eq_ok_iff.mp read
          exact not_failAfterList failed
      | @next _ texts front text others lead item more =>
          rw [List.append_assoc, run_bind (nextItem_item lead item)]
          simp only [if_true, bind_assoc]
          have read {taken : (σ → σ) × List UInt8} : below (.index index) (slot.read room)
              (text ++ (others ++ 0x5D :: rest)) = .ok taken ↔ _ :=
            below_eq_ok_iff.trans (here blank_nil item more.items.endsNumber)
          rw [bind_eq_ok_iff]
          constructor
          · rintro ⟨put, middle, taken, later⟩
            obtain ⟨reads, left⟩ := read.mp taken
            obtain rfl : middle = others ++ 0x5D :: rest := left
            obtain ⟨filled, inOrder, holds⟩ := (ih needed decodes more nofun _).mp later
            exact ⟨filled, .next reads inOrder, holds⟩
          · rintro ⟨filled, inOrder, holds⟩
            cases inOrder with
            | @next _ _ _ _ _ _ put reads inOrder =>
                exact ⟨put, _, read.mpr ⟨reads, rfl⟩, (ih needed decodes more nofun _).mpr ⟨filled, inOrder, holds⟩⟩

/-! ## Records -/

/-- The record has all that is required, and makes the result. -/
def Completes (shape : Shape σ α) (record : σ) (a : α) : Prop :=
  (∀ slot ∈ shape.slots, slot.required → slot.filled record) ∧ shape.finish record = some a

/-- A text of the record: an object whose members fill it, or a list of its fields in their order. -/
def RecordText (shape : Shape σ α) (D : String → List UInt8 → (σ → σ) → Prop) (text : List UInt8) (a : α) : Prop :=
  (∃ body entries record, text = 0x7B :: body ++ [0x7D] ∧ Entries true entries body ∧
    shape.Gathers D shape.empty entries record ∧ shape.Completes record a) ∨
  (∃ body texts record, text = 0x5B :: body ++ [0x5D] ∧ Items true texts body ∧
    InOrder D shape.slots shape.empty texts record ∧ shape.Completes record a)

theorem complete_iff (fail : Problem → Reader α) (fails : ∀ p bytes result, fail p bytes ≠ .ok result)
    {bytes : List UInt8} {result : α × List UInt8} :
    shape.complete fail record bytes = .ok result ↔ shape.Completes record result.1 ∧ result.2 = bytes := by
  obtain ⟨a, left⟩ := result
  unfold complete Completes
  cases missing : shape.slots.find? fun slot => slot.required && !slot.filled record with
  | some slot =>
      refine iff_of_false (fails _ _ _) fun ⟨⟨filled, _⟩, _⟩ => ?_
      rw [complete_eq_none.mpr filled] at missing
      cases missing
  | none =>
      have filled := complete_eq_none.mp missing
      cases finished : shape.finish record with
      | none => exact iff_of_false (fails _ _ _) nofun
      | some b =>
          have returned : (pure b : Reader α) bytes = .ok (b, bytes) := rfl
          simp only [returned, Except.ok.injEq, Prod.mk.injEq, Option.some.injEq, eq_comm (a := left)]
          exact and_congr_left fun _ => ⟨fun same => ⟨filled, same⟩, And.right⟩

/-- What ends a record, if nothing but its bracket is left. -/
theorem run_complete (fail : Problem → Reader α) (fails : ∀ p bytes result, fail p bytes ≠ .ok result)
    {close : Reader Unit} {bytes : List UInt8} (closes : close bytes = .ok ((), rest)) {result : α × List UInt8} :
    (do
      let a ← shape.complete fail record
      close
      return a) bytes = .ok result ↔ shape.Completes record result.1 ∧ result.2 = rest := by
  obtain ⟨a, left⟩ := result
  rw [bind_eq_ok_iff]
  constructor
  · rintro ⟨b, middle, completed, later⟩
    obtain ⟨completes, same⟩ := (complete_iff fail fails).mp completed
    obtain rfl : middle = bytes := same
    rw [run_bind closes] at later
    cases later
    exact ⟨completes, rfl⟩
  · rintro ⟨completes, rfl⟩
    refine ⟨a, bytes, (complete_iff fail fails).mpr ⟨completes, rfl⟩, ?_⟩
    rw [run_bind closes]
    rfl

/-- A reading of an object begins with its members. -/
theorem read_object (shape : Shape σ α) (room : Nat) {ws : List UInt8} (blank : Blank ws)
    (body rest : List UInt8) : ∃ fuel, body.length < fuel ∧
    shape.read (room + 1) (ws ++ (0x7B :: body ++ [0x7D]) ++ rest) =
      (do
        let record ← shape.readFields room fuel true shape.empty
        let a ← shape.complete failAfterObject record
        closeObject
        return a) (body ++ 0x7D :: rest) := by
  have bytes : ws ++ (0x7B :: body ++ [0x7D]) ++ rest = ws ++ 0x7B :: (body ++ 0x7D :: rest) := by simp
  have bounded : bound (body ++ 0x7D :: rest) = .ok ((body ++ 0x7D :: rest).length + 1, body ++ 0x7D :: rest) := rfl
  have longer : body.length < (body ++ 0x7D :: rest).length + 1 := by
    rw [List.length_append]
    omega
  refine ⟨_, longer, ?_⟩
  rw [bytes, Shape.read, run_bind (firstOfValue_token blank (by decide) _), if_pos rfl]
  simp only [run_advance, run_bind bounded]

theorem read_object_iff (lax : shape.strict = false) (decodes : shape.Decodes room D)
    (listed : Entries true entries body) {ws : List UInt8} (blank : Blank ws) {result : α × List UInt8} :
    shape.read (room + 1) (ws ++ (0x7B :: body ++ [0x7D]) ++ rest) = .ok result ↔
      (∃ record, shape.Gathers D shape.empty entries record ∧ shape.Completes record result.1) ∧ result.2 = rest := by
  obtain ⟨fuel, enough, begun⟩ := shape.read_object room blank body rest
  have closing {record : σ} : _ ↔ shape.Completes record result.1 ∧ result.2 = rest :=
    run_complete failAfterObject (fun _ _ _ => not_failAfterObject) (closeObject_done rest)
  rw [begun, bind_eq_ok_iff]
  constructor
  · rintro ⟨record, middle, fields, later⟩
    obtain ⟨gathers, left⟩ := (readFields_iff lax decodes listed enough).mp fields
    obtain rfl : middle = 0x7D :: rest := left
    obtain ⟨completes, same⟩ := closing.mp later
    exact ⟨⟨record, gathers, completes⟩, same⟩
  · rintro ⟨⟨record, gathers, completes⟩, same⟩
    exact ⟨record, _, (readFields_iff lax decodes listed enough).mpr ⟨gathers, rfl⟩, closing.mpr ⟨completes, same⟩⟩

theorem closeList_blank {ws : List UInt8} (blank : Blank ws) :
    closeList (ws ++ 0x5D :: rest) = .ok ((), rest) := by
  simp only [closeList, run_bind (nextToken_blank blank (b := 0x5D) (by decide) rest), if_true]
  rfl

theorem not_closeList (lead : Lead false front) {result : Unit × List UInt8} :
    closeList (front ++ rest) ≠ .ok result := by
  obtain ⟨before, after, blank, blank', rfl⟩ := lead
  have separator := nextToken_blank blank (b := 0x2C) (by decide) (after ++ rest)
  have noEnd : ¬(0x2C : UInt8) = 0x5D := by decide
  simp only [comma, Bool.false_eq_true, if_false, List.append_assoc, List.cons_append, List.nil_append]
  rw [closeList, run_bind separator]
  simp only [noEnd, if_false, if_true, run_advance]
  intro read
  obtain ⟨_, _, _, later⟩ := bind_eq_ok_iff.mp read
  split at later <;> cases later

theorem read_list_iff (needed : ∀ slot ∈ shape.slots, slot.required = true) (some' : shape.slots ≠ [])
    (decodes : shape.Decodes room D) (listed : Items true texts body) {ws : List UInt8} (blank : Blank ws)
    {result : α × List UInt8} :
    shape.read (room + 1) (ws ++ (0x5B :: body ++ [0x5D]) ++ rest) = .ok result ↔
      (∃ record, InOrder D shape.slots shape.empty texts record ∧ shape.Completes record result.1) ∧
        result.2 = rest := by
  have bytes : ws ++ (0x5B :: body ++ [0x5D]) ++ rest = ws ++ 0x5B :: (body ++ 0x5D :: rest) := by simp
  have noObject : ¬(0x5B : UInt8) = 0x7B := by decide
  rw [bytes, Shape.read, run_bind (firstOfValue_token blank (by decide) _), if_neg noObject, if_pos rfl]
  simp only [run_advance]
  rw [readInOrder_iff (P := fun record => shape.Completes record result.1 ∧ result.2 = rest) needed decodes ?_ listed
    (fun _ => some')]
  · simp only [← and_assoc, exists_and_right]
  · intro texts body record listed
    cases listed with
    | done blank =>
        rw [run_complete failAfterList (fun _ _ _ => not_failAfterList) (closeList_blank blank)]
        exact (and_iff_right rfl).symm
    | next lead =>
        refine iff_of_false (fun read => ?_) fun both => List.cons_ne_nil _ _ both.1
        obtain ⟨a, middle, completed, later⟩ := bind_eq_ok_iff.mp read
        obtain ⟨-, left⟩ := (complete_iff failAfterList fun _ _ _ => not_failAfterList).mp completed
        obtain rfl : middle = _ := left
        obtain ⟨_, _, closed, -⟩ := bind_eq_ok_iff.mp later
        rw [List.append_assoc, List.append_assoc] at closed
        exact not_closeList lead closed

/-- The record is read from its texts, and from no other value. -/
theorem read_decodes (lax : shape.strict = false) (needed : ∀ slot ∈ shape.slots, slot.required = true)
    (some' : shape.slots ≠ []) (decodes : shape.Decodes room D) :
    (shape.read (room + 1)).Decodes (shape.RecordText D) := by
  intro ws text rest blank value ends result
  have other {b : UInt8} {more : List UInt8} (token : isJsonBlank b = false) (noObject : b ≠ 0x7B)
      (noList : b ≠ 0x5B) : shape.read (room + 1) (ws ++ b :: more ++ rest) = .ok result ↔
        shape.RecordText D (b :: more) result.1 ∧ result.2 = rest := by
    rw [List.append_assoc, List.cons_append, Shape.read, run_bind (firstOfValue_token blank token _), if_neg noObject,
      if_neg noList]
    refine iff_of_false not_failOnNext ?_
    rintro ⟨⟨_, _, _, ⟨⟩, _⟩ | ⟨_, _, _, ⟨⟩, _⟩, -⟩
    · exact noObject rfl
    · exact noList rfl
  cases value with
  | null | yes | no | string => exact other (by decide) (by decide) (by decide)
  | number number =>
      obtain ⟨b, more, rfl, rfl | digit⟩ := number.head
      · exact other (by decide) (by decide) (by decide)
      · refine other (token_of_isDigit digit) ?_ ?_ <;> rintro rfl <;> cases digit
  | @object body members =>
      constructor
      · intro read
        obtain ⟨fuel, -, begun⟩ := shape.read_object room blank body rest
        obtain ⟨_, _, fields, -⟩ := bind_eq_ok_iff.mp (begun ▸ read)
        obtain ⟨entries, listed⟩ := entries_of_readFields lax decodes members fields
        obtain ⟨⟨record, gathers, completes⟩, left⟩ := (read_object_iff lax decodes listed blank).mp read
        exact ⟨.inl ⟨body, entries, record, rfl, listed, gathers, completes⟩, left⟩
      · rintro ⟨⟨body', entries, record, same, listed, filled⟩ | ⟨_, _, _, ⟨⟩, _⟩, left⟩
        obtain rfl : body = body' := by simpa using same
        exact (read_object_iff lax decodes listed blank).mpr ⟨⟨record, filled⟩, left⟩
  | @array body items =>
      constructor
      · intro read
        obtain ⟨texts, listed⟩ := items.exists_items
        obtain ⟨⟨record, inOrder, completes⟩, left⟩ := (read_list_iff needed some' decodes listed blank).mp read
        exact ⟨.inr ⟨body, texts, record, rfl, listed, inOrder, completes⟩, left⟩
      · rintro ⟨⟨_, _, _, ⟨⟩, _⟩ | ⟨body', texts, record, same, listed, filled⟩, left⟩
        obtain rfl : body = body' := by simpa using same
        exact (read_list_iff needed some' decodes listed blank).mpr ⟨⟨record, filled⟩, left⟩

end Shape

end ChainRelay.Json
