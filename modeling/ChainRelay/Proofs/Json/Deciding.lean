import ChainRelay.Proofs.Json.Refusing

/-! # Which objects are records

A record is read from an object if each of its members has a slot that takes its value, and no slot that
must be filled is left out; from all other objects nothing is read.
-/

namespace ChainRelay.Json

open Reader

theorem readMember_refuses {r : Reader α} {v : Value} (refuses : r.Refuses v) (name : String)
    {gap gap' text rest : List UInt8} (blank : Blank gap) (blank' : Blank gap') (spelled : Spells v text)
    (ends : EndsNumber rest) (result : α × List UInt8) :
    readMember name r (gap ++ [0x3A] ++ gap' ++ text ++ rest) ≠ .ok result := by
  have token := nextToken_blank blank (b := 0x3A) (by decide) (gap' ++ text ++ rest)
  have colon : readColon (gap ++ 0x3A :: (gap' ++ text ++ rest)) = .ok ((), gap' ++ text ++ rest) := by
    simp only [readColon, run_bind token, if_true]
    rfl
  have bytes : gap ++ [0x3A] ++ gap' ++ text ++ rest = gap ++ 0x3A :: (gap' ++ text ++ rest) := by simp
  rw [bytes, readMember, run_bind colon]
  simp only [below]
  split
  · rename_i result' read
    exact absurd read (refuses gap' text rest blank' spelled ends result')
  · simp

theorem not_failAfterObject {p : Problem} {bytes : List UInt8} {result : α × List UInt8} :
    (failAfterObject p : Reader α) bytes ≠ .ok result := by
  intro read
  have nothing : (failAfterObject p : Reader α).Gives fun _ => False := failAfterObject_gives
  exact nothing bytes result.1 result.2 read

theorem find?_name {slots : List (Slot σ)} (distinct : (slots.map (·.name)).Nodup) {slot : Slot σ}
    (member : slot ∈ slots) : slots.find? (·.name == slot.name) = some slot := by
  induction slots with
  | nil => cases member
  | cons first rest ih =>
      obtain ⟨apart, others⟩ := List.nodup_cons.mp distinct
      rcases List.mem_cons.mp member with rfl | later
      · simp
      · have different : first.name ≠ slot.name := by
          intro same
          apply apart
          exact List.mem_map.mpr ⟨slot, later, same.symm⟩
        rw [List.find?_cons_of_neg (by simpa using different), ih others later]

namespace Shape

variable {shape : Shape σ α} {room : Nat}

/-- Slots are told apart by their names, and each of them keeps a place of its own in the record. -/
structure Tidy (shape : Shape σ α) (room : Nat) : Prop where
  strict : shape.strict = true
  distinct : (shape.slots.map (·.name)).Nodup
  free : ∀ slot ∈ shape.slots, slot.filled shape.empty = false
  marks : ∀ slot ∈ shape.slots, (slot.read room).Gives fun put => ∀ other ∈ shape.slots, ∀ record,
    other.filled (put record) = (other.filled record || other.name == slot.name)
  finishes : ∀ record, (∀ slot ∈ shape.slots, slot.required → slot.filled record) →
    (shape.finish record).isSome

/-- Each member has a slot that takes its value, and none that is required is left out. -/
structure Takes (shape : Shape σ α) (room : Nat) (members : Members) : Prop where
  each : ∀ m ∈ members, ∃ slot ∈ shape.slots, slot.name = m.1 ∧ ∃ put, (slot.read room).Reads m.2 put
  required : ∀ slot ∈ shape.slots, slot.required → slot.name ∈ members.names

/-- For each member it is settled whether the slot of its name takes its value. -/
def Settles (shape : Shape σ α) (room : Nat) (members : Members) : Prop :=
  ∀ m ∈ members, ∀ slot ∈ shape.slots, slot.name = m.1 → (slot.read room).Settles m.2

theorem slot_of_find? {name : String} {slot : Slot σ} (found : shape.slots.find? (·.name == name) = some slot) :
    slot ∈ shape.slots ∧ slot.name = name :=
  ⟨List.mem_of_find?_eq_some found, by simpa using List.find?_some found⟩

theorem Fills.filled (tidy : shape.Tidy room) {record filled : σ} {members : Members}
    (fills : shape.Fills room record members filled) {slot : Slot σ} (member : slot ∈ shape.slots) :
    slot.filled filled ↔ slot.filled record ∨ slot.name ∈ members.names := by
  induction fills with
  | done => simp [Members.names]
  | @next record filled name v rest slot' put declared free reads more ih =>
      obtain ⟨member', rfl⟩ := slot_of_find? declared
      rw [ih, reads.holds (tidy.marks slot' member') slot member record]
      simp [Members.names, or_assoc]

theorem Fills.each {record filled : σ} {members : Members} (fills : shape.Fills room record members filled) :
    ∀ m ∈ members, ∃ slot ∈ shape.slots, slot.name = m.1 ∧ ∃ put, (slot.read room).Reads m.2 put := by
  induction fills with
  | done => exact nofun
  | next declared free reads more ih =>
      obtain ⟨member, named⟩ := slot_of_find? declared
      exact List.forall_mem_cons.mpr ⟨⟨_, member, named, _, reads⟩, ih⟩

theorem exists_fills (tidy : shape.Tidy room) {members : Members} (distinct : members.names.Nodup) {record : σ}
    (each : ∀ m ∈ members, ∃ slot ∈ shape.slots, slot.name = m.1 ∧ slot.filled record = false ∧
      ∃ put, (slot.read room).Reads m.2 put) :
    ∃ filled, shape.Fills room record members filled := by
  induction members generalizing record with
  | nil => exact ⟨record, .done⟩
  | cons m rest ih =>
      obtain ⟨name, v⟩ := m
      obtain ⟨apart, distinct'⟩ := List.nodup_cons.mp distinct
      obtain ⟨⟨slot, member, rfl, free, put, reads⟩, others⟩ := List.forall_mem_cons.mp each
      have later : ∀ m ∈ rest, ∃ slot ∈ shape.slots, slot.name = m.1 ∧ slot.filled (put record) = false ∧
          ∃ put, (slot.read room).Reads m.2 put := by
        intro m inside
        obtain ⟨slot', member', named, free', reads'⟩ := others m inside
        have different : slot'.name ≠ slot.name := by
          intro same
          apply apart
          exact List.mem_map.mpr ⟨m, inside, named.symm.trans same⟩
        refine ⟨slot', member', named, ?_, reads'⟩
        rw [reads.holds (tidy.marks slot member) slot' member' record, free']
        simpa using different
      obtain ⟨filled, more⟩ := ih distinct' later
      exact ⟨filled, .next (find?_name tidy.distinct member) free reads more⟩

/-- Fields are only read from members that fill slots. -/
theorem fills_of_readFields (tidy : shape.Tidy room) {members : Members} (settles : shape.Settles room members)
    {record : σ} {first : Bool} {body : List UInt8} (spelled : SpellsMembers first members body) {fuel : Nat}
    {rest : List UInt8} {result : σ × List UInt8}
    (read : shape.readFields room fuel first record (body ++ 0x7D :: rest) = .ok result) :
    ∃ filled, shape.Fills room record members filled := by
  induction members generalizing record first body fuel with
  | nil => exact ⟨record, .done⟩
  | cons m members ih =>
      obtain ⟨here, others⟩ := List.forall_mem_cons.mp settles
      cases fuel with
      | zero => cases read
      | succ fuel =>
          cases spelled with
          | @next _ name v _ before after gap gap' text more blank blank' blankGap blankGap' value later =>
              have named := nextName_next first blank blank' name
                (gap ++ [0x3A] ++ gap' ++ text ++ (more ++ 0x7D :: rest))
              have ends := later.endsNumber rest
              have bytes : before ++ comma first ++ after ++ utf8Bytes (quoted name) ++ gap ++ [0x3A] ++ gap' ++
                  text ++ more ++ 0x7D :: rest = before ++ comma first ++ after ++ utf8Bytes (quoted name) ++
                    (gap ++ [0x3A] ++ gap' ++ text ++ (more ++ 0x7D :: rest)) := by simp
              rw [bytes, readFields, run_bind named] at read
              dsimp only at read
              cases declared : shape.slots.find? (·.name == name) with
              | none =>
                  simp only [declared, tidy.strict, if_true, below] at read
                  split at read
                  · rename_i after
                    exact absurd after not_failAfterObject
                  · cases read
              | some slot =>
                  obtain ⟨member, same⟩ := slot_of_find? declared
                  simp only [declared] at read
                  split at read
                  · exact absurd read not_failAfterObject
                  · rename_i free
                    rcases here slot member same with ⟨put, reads⟩ | refuses
                    · rw [run_bind (readMember_spelled reads name blankGap blankGap' value ends)] at read
                      obtain ⟨filled, fills⟩ := ih others later read
                      exact ⟨filled, .next declared (by simpa using free) reads fills⟩
                    · obtain ⟨put, middle, taken, _⟩ := bind_eq_ok_iff.mp read
                      exact absurd taken (readMember_refuses refuses name blankGap blankGap' value ends _)

theorem complete_eq_none {record : σ} :
    shape.slots.find? (fun slot => slot.required && !slot.filled record) = none ↔
      ∀ slot ∈ shape.slots, slot.required → slot.filled record := by
  simp [List.find?_eq_none]

theorem filled_of_complete {record : σ} {bytes : List UInt8} {result : α × List UInt8}
    (completed : shape.complete failAfterObject record bytes = .ok result) :
    ∀ slot ∈ shape.slots, slot.required → slot.filled record := by
  unfold complete at completed
  cases missing : shape.slots.find? fun slot => slot.required && !slot.filled record with
  | none => exact complete_eq_none.mp missing
  | some slot =>
      rw [missing] at completed
      exact absurd completed not_failAfterObject

theorem Takes.reads (tidy : shape.Tidy room) {members : Members} (distinct : members.names.Nodup)
    (takes : shape.Takes room members) : ∃ a, (shape.read (room + 1)).Reads (.object members) a := by
  have each : ∀ m ∈ members, ∃ slot ∈ shape.slots, slot.name = m.1 ∧ slot.filled shape.empty = false ∧
      ∃ put, (slot.read room).Reads m.2 put := by
    intro m inside
    obtain ⟨slot, member, named, reads⟩ := takes.each m inside
    exact ⟨slot, member, named, tidy.free slot member, reads⟩
  obtain ⟨record, fills⟩ := exists_fills tidy distinct each
  have filled : ∀ slot ∈ shape.slots, slot.required → slot.filled record := by
    intro slot member required
    exact (fills.filled tidy member).mpr (.inr (takes.required slot member required))
  obtain ⟨a, finished⟩ := Option.isSome_iff_exists.mp (tidy.finishes record filled)
  exact ⟨a, read_reads fills (complete_eq_none.mpr filled) finished⟩

theorem refuses_of_not_takes (tidy : shape.Tidy room) {members : Members} (settles : shape.Settles room members)
    (other : ¬shape.Takes room members) : (shape.read (room + 1)).Refuses (.object members) := by
  intro ws text rest blank spelled ends result read
  cases spelled with
  | @object _ body spelled =>
      have bytes : ws ++ (0x7B :: body ++ [0x7D]) ++ rest = ws ++ 0x7B :: (body ++ 0x7D :: rest) := by simp
      have opened : advance (0x7B :: (body ++ 0x7D :: rest)) = .ok ((), body ++ 0x7D :: rest) := rfl
      have bounded : bound (body ++ 0x7D :: rest) =
          .ok ((body ++ 0x7D :: rest).length + 1, body ++ 0x7D :: rest) := rfl
      rw [bytes, Shape.read, run_bind (firstOfValue_token blank (by decide) _), if_pos rfl] at read
      simp only [run_bind opened, run_bind bounded] at read
      obtain ⟨record, middle, fields, read⟩ := bind_eq_ok_iff.mp read
      obtain ⟨a, last, completed, _⟩ := bind_eq_ok_iff.mp read
      obtain ⟨filled, fills⟩ := fills_of_readFields tidy settles spelled fields
      rw [readFields_spelled fills spelled (by have := length_members spelled; simp; omega)] at fields
      cases fields
      refine other ⟨fills.each, fun slot member required => ?_⟩
      have here := filled_of_complete completed slot member required
      rw [fills.filled tidy member, tidy.free slot member] at here
      exact here.resolve_left Bool.false_ne_true

/-- It depends on names and values of the members alone whether a record is read. -/
theorem read_iff (tidy : shape.Tidy room) {members : Members} (distinct : members.names.Nodup)
    (settles : shape.Settles room members) :
    (∃ a, (shape.read (room + 1)).Reads (.object members) a) ↔ shape.Takes room members := by
  constructor
  · intro ⟨a, reads⟩
    apply Classical.byContradiction
    intro other
    exact (refuses_of_not_takes tidy settles other).not_reads reads
  · exact Takes.reads tidy distinct

theorem read_settles (tidy : shape.Tidy room) {members : Members} (distinct : members.names.Nodup)
    (settles : shape.Settles room members) : (shape.read (room + 1)).Settles (.object members) := by
  by_cases takes : shape.Takes room members
  · exact .inl (Takes.reads tidy distinct takes)
  · exact .inr (refuses_of_not_takes tidy settles takes)

theorem read_refuses_null : (shape.read (room + 1)).Refuses .null := by
  intro ws text rest blank spelled ends result read
  obtain ⟨b, begins, first⟩ := run_firstOfValue blank spelled rest
  cases begins
  rw [Shape.read, first, if_neg (by decide), if_neg (by decide)] at read
  exact not_failOnNext read

end Shape

end ChainRelay.Json
