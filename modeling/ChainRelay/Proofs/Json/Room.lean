import ChainRelay.Proofs.Json.Nesting
import ChainRelay.Proofs.Json.Records

/-! # Room for containers

Whatever is read is read alike where there is more room for containers. So a value that is read from its own
text with some room needs no more of it than it is deep, and with less it cannot be read at all.
-/

namespace ChainRelay.Json

open Reader

/-! ## More room -/

/-- Whatever the reader gives, the other one gives as well. -/
def Reader.Within (r r' : Reader α) : Prop :=
  ∀ bytes result, r bytes = .ok result → r' bytes = .ok result

namespace Reader

theorem within_refl (r : Reader α) : r.Within r :=
  fun _ _ read => read

theorem Within.bind {r r' : Reader α} {f f' : α → Reader β} (within : r.Within r')
    (more : ∀ a, (f a).Within (f' a)) : (r >>= f).Within (r' >>= f') := by
  rintro bytes ⟨b, rest⟩ read
  obtain ⟨a, middle, first, second⟩ := bind_eq_ok_iff.mp read
  exact bind_eq_ok_iff.mpr ⟨a, middle, within _ _ first, more a _ _ second⟩

theorem within_bind {r : Reader α} {f f' : α → Reader β} (more : ∀ a, (f a).Within (f' a)) :
    (r >>= f).Within (r >>= f') :=
  (within_refl r).bind more

theorem Within.below {r r' : Reader α} (within : r.Within r') (step : Step) :
    (Reader.below step r).Within (Reader.below step r') := by
  intro bytes result read
  simp only [Reader.below] at read ⊢
  split at read
  · rename_i same
    cases read
    rw [within _ _ same]
  · cases read

theorem Within.ite {c : Prop} [Decidable c] {r r' s s' : Reader α} (yes : r.Within r') (no : s.Within s') :
    (if c then r else s).Within (if c then r' else s') := by
  split
  · exact yes
  · exact no

theorem failAtNext_within (p : Problem) (r : Reader α) : (failAtNext p : Reader α).Within r := by
  intro bytes result read
  cases read

end Reader

section

variable {item item' : Reader α} {r r' : Reader Value}

theorem readItems_within (within : item.Within item') (fuel index : Nat) :
    (readItems item fuel index).Within (readItems item' fuel index) := by
  induction fuel generalizing index with
  | zero => exact within_refl _
  | succ fuel ih =>
      refine within_bind fun follows => .ite ?_ (within_refl _)
      exact (within.below _).bind fun a => (ih (index + 1)).bind fun rest => within_refl _

theorem readMember_within (name : String) (within : item.Within item') :
    (readMember name item).Within (readMember name item') :=
  within_bind fun _ => within.below _

theorem readMembers_within (within : r.Within r') (fuel : Nat) (first : Bool) (found : Members) :
    (readMembers r fuel first found).Within (readMembers r' fuel first found) := by
  induction fuel generalizing first found with
  | zero => exact within_refl _
  | succ fuel ih =>
      refine within_bind fun name => ?_
      cases name with
      | none => exact within_refl _
      | some name => exact (readMember_within name within).bind fun v => ih false _

theorem readOptional_within (within : item.Within item') : (readOptional item).Within (readOptional item') := by
  refine within_bind fun next => .ite (within_refl _) ?_
  rw [← bind_pure_comp, ← bind_pure_comp]
  exact within.bind fun _ => within_refl _

end

/-- A value is read alike if the values in it are. -/
theorem readValue_within_of {room room' : Nat}
    (parts : ∀ inner, room = inner + 1 →
      ∃ inner', room' = inner' + 1 ∧ (readValue inner).Within (readValue inner')) :
    (readValue room).Within (readValue room') := by
  unfold readValue
  refine within_bind fun next => ?_
  cases next with
  | none => exact within_refl _
  | some b =>
      refine .ite (within_refl _) (.ite (within_refl _) (.ite (within_refl _) (.ite (within_refl _)
        (.ite (within_refl _) (.ite ?_ (.ite ?_ (within_refl _)))))))
      · cases room with
        | zero => exact failAtNext_within _ _
        | succ inner =>
            obtain ⟨inner', rfl, within⟩ := parts inner rfl
            refine within_bind fun _ => within_bind fun fuel => ?_
            exact (readItems_within within fuel 0).bind fun _ => within_refl _
      · cases room with
        | zero => exact failAtNext_within _ _
        | succ inner =>
            obtain ⟨inner', rfl, within⟩ := parts inner rfl
            refine within_bind fun _ => within_bind fun fuel => ?_
            exact (readMembers_within within fuel true []).bind fun _ => within_refl _

/-- A value is read alike with more room. -/
theorem readValue_within (room extra : Nat) : (readValue room).Within (readValue (room + extra)) := by
  induction room with
  | zero => exact readValue_within_of nofun
  | succ room ih =>
      refine readValue_within_of ?_
      rintro inner ⟨⟩
      exact ⟨room + extra, by omega, ih⟩

theorem readList_within {item : Nat → Reader α} {extra : Nat}
    (within : ∀ room, (item room).Within (item (room + extra))) (room : Nat) :
    (readList item room).Within (readList item (room + extra)) := by
  refine within_bind fun b => .ite ?_ (within_refl _)
  cases room with
  | zero => exact failAtNext_within _ _
  | succ room =>
      rw [Nat.succ_add]
      refine within_bind fun _ => within_bind fun fuel => ?_
      exact (readItems_within (within room) fuel 0).bind fun _ => within_refl _

namespace Shape

variable {shape : Shape σ α} {room room' : Nat}

theorem readFields_within (within : ∀ slot ∈ shape.slots, (slot.read room).Within (slot.read room')) (fuel : Nat)
    (first : Bool) (record : σ) :
    (shape.readFields room fuel first record).Within (shape.readFields room' fuel first record) := by
  induction fuel generalizing first record with
  | zero => exact within_refl _
  | succ fuel ih =>
      refine within_bind fun name => ?_
      cases name with
      | none => exact within_refl _
      | some name =>
          dsimp only
          cases declared : shape.slots.find? (·.name == name) with
          | none => exact .ite (within_refl _) (within_bind fun _ => ih _ _)
          | some slot =>
              refine .ite (within_refl _) ?_
              have member := within slot (List.mem_of_find?_eq_some declared)
              exact (readMember_within name member).bind fun put => ih _ _

theorem readInOrder_within {slots : List (Slot σ)}
    (within : ∀ slot ∈ slots, (slot.read room).Within (slot.read room')) (index : Nat) (first : Bool) (record : σ) :
    (shape.readInOrder room slots index first record).Within
      (shape.readInOrder room' slots index first record) := by
  induction slots generalizing index first record with
  | nil => exact within_refl _
  | cons slot rest ih =>
      obtain ⟨here, others⟩ := List.forall_mem_cons.mp within
      refine within_bind fun follows => .ite ?_ (.ite (within_refl _) (ih others _ _ _))
      exact (here.below _).bind fun put => ih others _ _ _

/-- A record is read alike with more room, if its slots are. -/
theorem read_within {extra : Nat}
    (within : ∀ slot ∈ shape.slots, ∀ room, (slot.read room).Within (slot.read (room + extra))) (room : Nat) :
    (shape.read room).Within (shape.read (room + extra)) := by
  cases room with
  | zero =>
      refine within_bind fun b => .ite ?_ (.ite ?_ (within_refl _))
      · exact failAtNext_within _ _
      · exact failAtNext_within _ _
  | succ room =>
      have here := fun slot member => within slot member room
      rw [Nat.succ_add]
      refine within_bind fun b => .ite ?_ (.ite ?_ (within_refl _))
      · refine within_bind fun _ => within_bind fun fuel => ?_
        exact (readFields_within here fuel true _).bind fun _ => within_refl _
      · refine within_bind fun _ => ?_
        exact (readInOrder_within here 0 true _).bind fun _ => within_refl _

end Shape

/-! ## Numbers that are read again -/

/-- The number is read from its own text, be it with another value. All whole numbers are. -/
def Number.Legible (n : Number) : Prop :=
  ∃ back, n.ReadsBack back

open Classical in
/-- What is read from the text of a number. -/
noncomputable def Number.back (n : Number) : Number :=
  if legible : n.Legible then legible.choose else n

theorem Number.Legible.readsBack {n : Number} (legible : n.Legible) : n.ReadsBack n.back := by
  rw [back, dif_pos legible]
  exact legible.choose_spec

namespace Value

/-- All numbers in the value are legible. -/
inductive Legible : Value → Prop where
  | null : Legible .null
  | bool {b : Bool} : Legible (.bool b)
  | number {n : Number} (legible : n.Legible) : Legible (.number n)
  | string {s : String} : Legible (.string s)
  | array {items : List Value} (each : ∀ v ∈ items, Legible v) : Legible (.array items)
  | object {members : Members} (each : ∀ m ∈ members, Legible m.2) : Legible (.object members)

theorem Whole.legible {v : Value} (whole : v.Whole) : v.Legible := by
  induction whole with
  | null => exact .null
  | bool => exact .bool
  | @int n fits => exact .number ⟨_, Number.readsBack_int fits⟩
  | string => exact .string
  | array _ ih => exact .array ih
  | object _ ih => exact .object ih

mutual

/-- What is read from the text of a value. -/
noncomputable def back : Value → Value
  | .null => .null
  | .bool b => .bool b
  | .number n => .number n.back
  | .string s => .string s
  | .array items => .array (backItems items)
  | .object members => .object (backMembers members)

/-- What is read from the texts of items. -/
noncomputable def backItems : List Value → List Value
  | [] => []
  | v :: rest => v.back :: backItems rest

/-- What is read from the texts of members. -/
noncomputable def backMembers : List (String × Value) → List (String × Value)
  | [] => []
  | (name, v) :: rest => (name, v.back) :: backMembers rest

end

theorem backItems_eq (items : List Value) : backItems items = items.map back := by
  induction items with
  | nil => rfl
  | cons v rest ih => rw [backItems, ih, List.map_cons]

theorem backMembers_eq (members : Members) : backMembers members = members.mapValues back := by
  induction members with
  | nil => rfl
  | cons m rest ih =>
      obtain ⟨name, v⟩ := m
      rw [backMembers, ih]
      rfl

theorem depth_back (v : Value) : v.back.depth = v.depth := by
  induction v using rec_parts with
  | null | bool | number | string => rfl
  | array items ih =>
      rw [back, depth, depth, Nat.add_right_cancel_iff]
      induction items with
      | nil => rfl
      | cons v rest ih' =>
          obtain ⟨here, others⟩ := List.forall_mem_cons.mp ih
          rw [backItems, depthOfItems, depthOfItems, here, ih' others]
  | object members ih =>
      rw [back, depth, depth, Nat.add_right_cancel_iff]
      induction members with
      | nil => rfl
      | cons m rest ih' =>
          obtain ⟨here, others⟩ := List.forall_mem_cons.mp ih
          obtain ⟨name, v⟩ := m
          rw [backMembers, depthOfMembers, depthOfMembers, here, ih' others]

/-- A legible value is read from its texts if there is as much room as it is deep. -/
theorem Legible.reads {v : Value} (legible : v.Legible) (sorted : v.Sorted) {room : Nat} (shallow : v.depth ≤ room) :
    (readValue room).Reads v v.back := by
  induction legible generalizing room with
  | null => exact readValue_null room
  | bool => exact readValue_bool room _
  | number legible => exact readValue_number room legible.readsBack
  | string => exact readValue_string room _
  | array each ih =>
      obtain ⟨room, rfl⟩ : ∃ inner, room = inner + 1 := ⟨room - 1, by rw [depth] at shallow; omega⟩
      rw [depth_array_le_iff] at shallow
      cases sorted with
      | array sorted =>
          rw [back, backItems_eq]
          exact readValue_array back fun v member => ih v member (sorted v member) (shallow v member)
  | object each ih =>
      obtain ⟨room, rfl⟩ : ∃ inner, room = inner + 1 := ⟨room - 1, by rw [depth] at shallow; omega⟩
      rw [depth_object_le_iff] at shallow
      cases sorted with
      | object ascending sorted =>
          rw [back, backMembers_eq]
          exact readValue_object back ascending fun m member => ih m member (sorted m member) (shallow m member)

end Value

end ChainRelay.Json
