import ChainRelay.Proofs.Json.Skipping

/-! # The texts of records

A record is taken from an object, of whose members those of other names are left out, or from a list; either
ends with its own bracket, so that anything may follow.
-/

namespace ChainRelay.Json.Shape

open Reader

variable {shape : Shape σ α} {room : Nat}

theorem readFields_takes (each : ∀ slot ∈ shape.slots, (slot.read room).TakesValue) (fuel : Nat) (first : Bool)
    (record : σ) (next : Option UInt8) :
    (shape.readFields room fuel first record).TakesFrom next false
      (fun n => shape.readFields room (n + 1) first record) fun _ => MembersText first := by
  induction fuel generalizing first record next with
  | zero => exact takes_failHere
  | succ fuel ih =>
      refine (nextName_takes first next).bind fun name next => ?_
      cases name with
      | none =>
          refine takes_pure fun ws blank => ?_
          rw [List.append_nil]
          exact .done (blank.2 rfl)
      | some name =>
          refine TakesFrom.mono (L := fun _ text => ∀ first front, NamedLead first front →
            MembersText first (front ++ text)) ?_ fun _ text more front named => more first front (named.1 rfl)
          dsimp only
          cases declared : shape.slots.find? (·.name == name) with
          | none =>
              refine takes_ite (fun _ => takes_of_fails (failAfterObject_gives.below _)) fun _ => ?_
              exact takes_member name skipValue_takes (fun _ next => ih _ _ next) next
          | some slot =>
              refine takes_ite (fun _ => takes_of_fails failAfterObject_gives) fun _ => ?_
              have takes := each slot (List.mem_of_find?_eq_some declared)
              exact takes_member name takes (fun put next => ih _ _ next) next

theorem readInOrder_takes {slots : List (Slot σ)} (each : ∀ slot ∈ slots, (slot.read room).TakesValue)
    (index : Nat) (first : Bool) (record : σ) :
    (shape.readInOrder room slots index first record).Takes false fun _ => ItemsText first := by
  induction slots generalizing index first record with
  | nil => exact fun _ => takes_pure (.done blank_nil)
  | cons slot rest ih =>
      obtain ⟨here, others⟩ := List.forall_mem_cons.mp each
      intro next
      refine (nextItem_takes first next).bind fun follows next => takes_ite (fun yes => ?_) fun no => ?_
      · refine ((here next).below _).bind fun put next => (ih others _ _ _ next).mono ?_
        rintro _ text more _ ⟨ws, value, blank, value', rfl⟩ front lead
        simpa using ItemsText.next ((lead.1 yes).append_blank blank) value' more
      · refine takes_ite (fun _ => takes_of_fails failAfterList_gives) fun _ => (ih others _ _ _ next).mono ?_
        exact fun _ text items front lead => items.blank_append (lead.2 (by simpa using no))

theorem complete_takes {fail : Problem → Reader α} (fails : ∀ p, (fail p).Gives fun _ => False) (record : σ) :
    (shape.complete fail record).Takes false fun _ text => text = [] := by
  intro next
  unfold Shape.complete
  split
  · exact takes_of_fails (fails _)
  · split
    · exact takes_pure rfl
    · exact takes_of_fails (fails _)

theorem read_takes (each : ∀ slot ∈ shape.slots, ∀ inner, (slot.read inner).TakesValue) (room : Nat) :
    (shape.read room).Takes true fun _ => Spaced ContainerText := by
  intro next
  refine takes_firstOfValue fun b => takes_ite (fun opening => ?_) fun _ => takes_ite (fun opening => ?_) fun _ =>
    takes_of_fails failOnNext_gives
  · cases room with
    | zero => exact takes_failAtNext
    | succ inner =>
        refine takes_advance_bind fun next => takes_bound fun fuel => ?_
        refine (readFields_takes (each · · inner) fuel true shape.empty next).bind fun record next => ?_
        refine (complete_takes (fun _ => failAfterObject_gives) record next).bind fun a next => ?_
        refine ((closeObject_takes next).mono ?_).then_pure
        rintro _ _ ⟨gap, _, blank', rfl, rfl⟩ _ rfl body members ws blank
        have container := ContainerText.object (members.append_blank blank')
        simpa [opening] using Spaced.intro blank container
  · cases room with
    | zero => exact takes_failAtNext
    | succ inner =>
        refine takes_advance_bind fun next => ?_
        refine (readInOrder_takes (each · · inner) 0 true shape.empty next).bind fun record next => ?_
        refine (complete_takes (fun _ => failAfterList_gives) record next).bind fun a next => ?_
        refine ((closeList_takes next).mono ?_).then_pure
        rintro _ _ ⟨gap, _, blank', rfl, rfl⟩ _ rfl body items ws blank
        have container := ContainerText.array (items.append_blank blank')
        simpa [opening] using Spaced.intro blank container

end ChainRelay.Json.Shape
