import ChainRelay.Json.Shape
import ChainRelay.Proofs.Json.Tokens

/-! # What readers give

What is read from any text at all is put together from what the parts of the reader give. The members of
an object come in ascending order, and a record has what its slots keep.
-/

namespace ChainRelay.Json

open Reader

/-- Whatever the reader gives has the property. -/
def Reader.Gives (r : Reader α) (P : α → Prop) : Prop :=
  ∀ bytes a rest, r bytes = .ok (a, rest) → P a

theorem runReader_eq_ok_iff {r : Reader α} {bytes : List UInt8} {a : α} :
    runReader r bytes = .ok a ↔ ∃ rest, r bytes = .ok (a, rest) := by
  unfold runReader
  split
  · rename_i a' rest read
    simp [read]
  · rename_i f refused
    simp [refused]

namespace Reader

theorem Gives.then {r : Reader α} {P : α → Prop} (gives : r.Gives P) {f : α → Reader β} {Q : β → Prop}
    (more : ∀ a, P a → (f a).Gives Q) : (r >>= f).Gives Q := by
  intro bytes b rest read
  obtain ⟨a, middle, first, second⟩ := bind_eq_ok_iff.mp read
  exact more a (gives bytes a middle first) middle b rest second

theorem gives_bind {r : Reader α} {f : α → Reader β} {Q : β → Prop} (more : ∀ a, (f a).Gives Q) :
    (r >>= f).Gives Q := by
  have any : r.Gives fun _ => True := fun _ _ _ _ => trivial
  exact any.then fun a _ => more a

theorem gives_pure {a : α} {P : α → Prop} (holds : P a) : (pure a : Reader α).Gives P := by
  intro bytes b rest read
  cases read
  exact holds

theorem gives_failHere {p : Problem} {P : α → Prop} : (failHere p : Reader α).Gives P := by
  intro bytes a rest read
  cases read

theorem gives_failAtNext {p : Problem} {P : α → Prop} : (failAtNext p : Reader α).Gives P := by
  intro bytes a rest read
  cases read

theorem Gives.below {r : Reader α} {P : α → Prop} (gives : r.Gives P) (step : Step) :
    (Reader.below step r).Gives P := by
  intro bytes a rest read
  simp only [Reader.below] at read
  split at read
  · rename_i result same
    cases read
    exact gives bytes a rest same
  · cases read

end Reader

theorem failOnNext_gives {expected : String} {P : α → Prop} :
    (failOnNext expected : Reader α).Gives P := by
  refine gives_bind fun next => ?_
  cases next with
  | none => exact gives_failAtNext
  | some b =>
      dsimp only
      split
      · exact gives_bind fun _ => gives_bind fun _ => gives_failHere
      split
      · exact gives_bind fun _ => gives_bind fun _ => gives_failHere
      split
      · exact gives_bind fun _ => gives_bind fun _ => gives_failHere
      split
      · exact gives_bind fun _ => gives_failHere
      split
      · exact gives_bind fun _ => gives_bind fun _ => gives_failHere
      split
      · exact gives_failHere
      split
      · exact gives_failHere
      · exact gives_failAtNext

theorem failAfterObject_gives {p : Problem} {P : α → Prop} :
    (failAfterObject p : Reader α).Gives P := by
  refine gives_bind fun next => ?_
  split
  · exact gives_bind fun _ => gives_failHere
  · exact gives_failHere

theorem failAfterList_gives {p : Problem} {P : α → Prop} : (failAfterList p : Reader α).Gives P := by
  refine gives_bind fun next => ?_
  dsimp only
  split
  · exact gives_bind fun _ => gives_failHere
  · split
    · exact gives_bind fun _ => gives_bind fun _ => gives_failHere
    · exact gives_failHere

theorem readMember_gives {name : String} {r : Reader α} {P : α → Prop} (gives : r.Gives P) :
    (readMember name r).Gives P :=
  gives_bind fun _ => gives.below _

theorem readItems_gives {r : Reader α} {P : α → Prop} (gives : r.Gives P) (fuel index : Nat) :
    (readItems r fuel index).Gives fun items => ∀ a ∈ items, P a := by
  induction fuel generalizing index with
  | zero => exact gives_failHere
  | succ fuel ih =>
      refine gives_bind fun follows => ?_
      split
      · refine (gives.below _).then fun a here => (ih (index + 1)).then fun rest others => gives_pure ?_
        exact List.forall_mem_cons.mpr ⟨here, others⟩
      · exact gives_pure (List.forall_mem_nil _)

theorem readList_gives {item : Nat → Reader α} {room : Nat} {P : α → Prop} (gives : (item room).Gives P) :
    (readList item (room + 1)).Gives fun items => ∀ a ∈ items, P a := by
  refine gives_bind fun b => ?_
  split
  · refine gives_bind fun _ => gives_bind fun fuel => ?_
    exact (readItems_gives gives fuel 0).then fun items each => gives_bind fun _ => gives_pure each
  · exact failOnNext_gives

theorem readOptional_gives {r : Reader α} {P : Option α → Prop} (absent : P none)
    (gives : r.Gives fun a => P (some a)) : (readOptional r).Gives P := by
  refine gives_bind fun next => ?_
  split
  · exact gives_bind fun _ => gives_bind fun _ => gives_pure absent
  · rw [← bind_pure_comp]
    exact gives.then fun a holds => gives_pure holds

namespace Members

theorem mem_insert {name : String} {v : Value} {members : Members} {m : String × Value}
    (member : m ∈ members.insert name v) : m = (name, v) ∨ m ∈ members := by
  induction members with
  | nil => exact .inl (List.mem_singleton.mp member)
  | cons old rest ih =>
      rw [insert] at member
      split at member
      · exact List.mem_cons.mp member
      · split at member
        · rcases List.mem_cons.mp member with here | later
          · exact .inl here
          · exact .inr (List.mem_cons_of_mem _ later)
        · rcases List.mem_cons.mp member with here | later
          · exact .inr (List.mem_cons.mpr (.inl here))
          · rcases ih later with new | old
            · exact .inl new
            · exact .inr (List.mem_cons_of_mem _ old)

/-- A member that is put in its place keeps the order. -/
theorem ascending_insert {name : String} {v : Value} {members : Members}
    (ascending : members.names.Pairwise (· < ·)) : (members.insert name v).names.Pairwise (· < ·) := by
  induction members with
  | nil => simp [insert, names]
  | cons old rest ih =>
      obtain ⟨other, value⟩ := old
      obtain ⟨first, others⟩ := List.pairwise_cons.mp ascending
      rw [insert]
      split
      · rename_i less
        refine List.pairwise_cons.mpr ⟨?_, ascending⟩
        intro later member
        rcases List.mem_cons.mp member with rfl | behind
        · exact less
        · exact String.lt_trans less (first later behind)
      · split
        · rename_i same
          subst same
          exact ascending
        · rename_i notLess different
          have less : other < name := by
            refine Decidable.byContradiction fun notMore => different ?_
            exact String.le_antisymm (String.not_lt.mp notMore) (String.not_lt.mp notLess)
          refine List.pairwise_cons.mpr ⟨?_, ih others⟩
          intro later member
          obtain ⟨m, inside, rfl⟩ := List.mem_map.mp member
          rcases mem_insert inside with rfl | old
          · exact less
          · exact first m.1 (List.mem_map_of_mem old)

end Members

theorem readMembers_gives {r : Reader Value} {fuel : Nat} {first : Bool} {found : Members}
    (ascending : found.names.Pairwise (· < ·)) :
    (readMembers r fuel first found).Gives fun members : Members => members.names.Pairwise (· < ·) := by
  induction fuel generalizing first found with
  | zero => exact gives_failHere
  | succ fuel ih =>
      refine gives_bind fun name => ?_
      cases name with
      | none => exact gives_pure ascending
      | some name => exact gives_bind fun v => ih (Members.ascending_insert ascending)

/-- The members of an object are in ascending order. -/
def Value.Ascending (v : Value) : Prop :=
  ∀ members : Members, v = .object members → members.names.Pairwise (· < ·)

/-- What is read is a scalar, or is made of what is read with less room. -/
theorem readValue_gives_of {room : Nat} {P : Value → Prop} (null : P .null) (bool : ∀ b, P (.bool b))
    (number : ∀ n, P (.number n)) (string : ∀ s, P (.string s))
    (array : ∀ inner, room = inner + 1 → ∀ fuel,
      (readItems (readValue inner) fuel 0).Gives fun items => P (.array items))
    (object : ∀ inner, room = inner + 1 → ∀ fuel,
      (readMembers (readValue inner) fuel true []).Gives fun members => P (.object members)) :
    (readValue room).Gives P := by
  unfold readValue
  refine gives_bind fun next => ?_
  cases next with
  | none => exact gives_failAtNext
  | some b =>
      dsimp only
      split
      · exact gives_bind fun _ => gives_bind fun _ => gives_pure null
      split
      · exact gives_bind fun _ => gives_bind fun _ => gives_pure (bool true)
      split
      · exact gives_bind fun _ => gives_bind fun _ => gives_pure (bool false)
      split
      · exact gives_bind fun n => gives_pure (number n)
      split
      · exact gives_bind fun _ => gives_bind fun s => gives_pure (string s)
      split
      · cases room with
        | zero => exact gives_failAtNext
        | succ inner =>
            refine gives_bind fun _ => gives_bind fun fuel => ?_
            exact (array inner rfl fuel).then fun _ holds => gives_bind fun _ => gives_pure holds
      split
      · cases room with
        | zero => exact gives_failAtNext
        | succ inner =>
            refine gives_bind fun _ => gives_bind fun fuel => ?_
            exact (object inner rfl fuel).then fun _ holds => gives_bind fun _ => gives_pure holds
      · exact gives_failAtNext

theorem readValue_gives (room : Nat) : (readValue room).Gives Value.Ascending := by
  refine readValue_gives_of nofun (fun _ => nofun) (fun _ => nofun) (fun _ => nofun) ?_ ?_
  · intro inner _ fuel bytes items rest _
    nofun
  · intro inner _ fuel bytes members rest read
    rintro _ ⟨⟩
    exact readMembers_gives List.Pairwise.nil bytes members rest read

namespace Shape

theorem readFields_gives {shape : Shape σ α} {room : Nat} {P : σ → Prop}
    (keeps : ∀ slot ∈ shape.slots, (slot.read room).Gives fun put => ∀ record, P record → P (put record))
    {fuel : Nat} {first : Bool} {record : σ} (holds : P record) :
    (shape.readFields room fuel first record).Gives P := by
  induction fuel generalizing first record with
  | zero => exact gives_failHere
  | succ fuel ih =>
      refine gives_bind fun name => ?_
      cases name with
      | none => exact gives_pure holds
      | some name =>
          dsimp only
          cases declared : shape.slots.find? (·.name == name) with
          | none =>
              dsimp only
              split
              · exact failAfterObject_gives.below _
              · exact gives_bind fun _ => ih holds
          | some slot =>
              dsimp only
              split
              · exact failAfterObject_gives
              · have kept : (readMember name (slot.read room)).Gives
                    fun put => ∀ record, P record → P (put record) :=
                  readMember_gives (keeps slot (List.mem_of_find?_eq_some declared))
                exact kept.then fun put keep => ih (keep record holds)

theorem readInOrder_gives {shape : Shape σ α} {room : Nat} {P : σ → Prop} {slots : List (Slot σ)}
    (keeps : ∀ slot ∈ slots, (slot.read room).Gives fun put => ∀ record, P record → P (put record))
    {index : Nat} {first : Bool} {record : σ} (holds : P record) :
    (shape.readInOrder room slots index first record).Gives P := by
  induction slots generalizing index first record with
  | nil => exact gives_pure holds
  | cons slot rest ih =>
      obtain ⟨here, others⟩ := List.forall_mem_cons.mp keeps
      refine gives_bind fun follows => ?_
      split
      · exact (here.below _).then fun put keep => ih others (keep record holds)
      · split
        · exact failAfterList_gives
        · exact ih others holds

theorem complete_gives {shape : Shape σ α} {fail : Problem → Reader α} {record : σ} {P : α → Prop}
    (fails : ∀ p, (fail p).Gives P) (finished : ∀ a, shape.finish record = some a → P a) :
    (shape.complete fail record).Gives P := by
  unfold Shape.complete
  split
  · exact fails _
  · split
    · rename_i a finish
      exact gives_pure (finished a finish)
    · exact fails _

/-- What the slots keep is true of every record that is read. -/
theorem read_gives {shape : Shape σ α} {room : Nat} {P : σ → Prop} {Q : α → Prop} (start : P shape.empty)
    (keeps : ∀ slot ∈ shape.slots, (slot.read room).Gives fun put => ∀ record, P record → P (put record))
    (finished : ∀ record a, P record → shape.finish record = some a → Q a) :
    (shape.read (room + 1)).Gives Q := by
  refine gives_bind fun b => ?_
  split
  · refine gives_bind fun _ => gives_bind fun fuel => ?_
    refine (readFields_gives keeps start).then fun record holds => ?_
    refine (complete_gives (fun _ => failAfterObject_gives) (finished record · holds)).then fun a good => ?_
    exact gives_bind fun _ => gives_pure good
  split
  · refine gives_bind fun _ => ?_
    refine (readInOrder_gives keeps start).then fun record holds => ?_
    refine (complete_gives (fun _ => failAfterList_gives) (finished record · holds)).then fun a good => ?_
    exact gives_bind fun _ => gives_pure good
  · exact failOnNext_gives

end Shape

end ChainRelay.Json
