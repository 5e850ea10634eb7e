import ChainRelay.Proofs.Json.Grammar
import ChainRelay.Proofs.Json.Results

/-! # How deep values are nested

A value that is read opens no more containers inside each other than its reader had room for, and all its
objects have their members in ascending order. Without floating point numbers, that is all it takes for a
value to be read again from its text.
-/

namespace ChainRelay.Json

open Reader

namespace Value

mutual

/-- How many containers the value opens inside each other. -/
def depth : Value → Nat
  | .null => 0
  | .bool _ => 0
  | .number _ => 0
  | .string _ => 0
  | .array items => depthOfItems items + 1
  | .object members => depthOfMembers members + 1

/-- The depth of the deepest item. -/
def depthOfItems : List Value → Nat
  | [] => 0
  | v :: rest => max v.depth (depthOfItems rest)

/-- The depth of the deepest member. -/
def depthOfMembers : List (String × Value) → Nat
  | [] => 0
  | (_, v) :: rest => max v.depth (depthOfMembers rest)

end

theorem depthOfItems_le_iff {items : List Value} {room : Nat} :
    depthOfItems items ≤ room ↔ ∀ v ∈ items, v.depth ≤ room := by
  induction items with
  | nil => simp [depthOfItems]
  | cons v rest ih => rw [depthOfItems, Nat.max_le, ih, List.forall_mem_cons]

theorem depthOfMembers_le_iff {members : Members} {room : Nat} :
    depthOfMembers members ≤ room ↔ ∀ m ∈ members, m.2.depth ≤ room := by
  induction members with
  | nil => simp [depthOfMembers]
  | cons m rest ih => rw [depthOfMembers, Nat.max_le, ih, List.forall_mem_cons]

theorem depth_array_le_iff {items : List Value} {room : Nat} :
    (array items).depth ≤ room + 1 ↔ ∀ v ∈ items, v.depth ≤ room := by
  rw [depth, Nat.add_le_add_iff_right, depthOfItems_le_iff]

theorem depth_object_le_iff {members : Members} {room : Nat} :
    (object members).depth ≤ room + 1 ↔ ∀ m ∈ members, m.2.depth ≤ room := by
  rw [depth, Nat.add_le_add_iff_right, depthOfMembers_le_iff]

/-- All objects in the value, and the value if it is one, have their members in ascending order. -/
inductive Sorted : Value → Prop where
  | null : Sorted .null
  | bool {b : Bool} : Sorted (.bool b)
  | number {n : Number} : Sorted (.number n)
  | string {s : String} : Sorted (.string s)
  | array {items : List Value} (each : ∀ v ∈ items, Sorted v) : Sorted (.array items)
  | object {members : Members} (ascending : members.names.Pairwise (· < ·))
      (each : ∀ m ∈ members, Sorted m.2) : Sorted (.object members)

/-- A value fits if it is not too deep. -/
theorem Whole.fits {v : Value} (whole : v.Whole) (sorted : v.Sorted) {room : Nat} (shallow : v.depth ≤ room) :
    v.Fits room := by
  induction whole generalizing room with
  | null => exact .null
  | bool => exact .bool
  | int => exact .int
  | string => exact .string
  | array each ih =>
      cases room with
      | zero =>
          rw [depth] at shallow
          omega
      | succ room =>
          rw [depth_array_le_iff] at shallow
          cases sorted with
          | array sorted => exact .array fun v member => ih v member (sorted v member) (shallow v member)
  | object each ih =>
      cases room with
      | zero =>
          rw [depth] at shallow
          omega
      | succ room =>
          rw [depth_object_le_iff] at shallow
          cases sorted with
          | object ascending sorted =>
              exact .object ascending fun m member => ih m member (sorted m member) (shallow m member)

end Value

/-! ## What is read -/

theorem readMembers_gives_each {r : Reader Value} {P : Value → Prop} (gives : r.Gives P) {fuel : Nat} {first : Bool}
    {found : Members} (each : ∀ m ∈ found, P m.2) :
    (readMembers r fuel first found).Gives fun members : Members => ∀ m ∈ members, P m.2 := by
  induction fuel generalizing first found with
  | zero => exact gives_failHere
  | succ fuel ih =>
      refine gives_bind fun name => ?_
      cases name with
      | none => exact gives_pure each
      | some name =>
          refine (readMember_gives gives).then fun v here => ih fun m member => ?_
          rcases Members.mem_insert member with rfl | old
          · exact here
          · exact each m old

/-- What is read is in order and no deeper than there was room. -/
theorem readValue_gives_sorted (room : Nat) : (readValue room).Gives fun v => v.Sorted ∧ v.depth ≤ room := by
  induction room with
  | zero =>
      have scalar {v : Value} (sorted : v.Sorted) (flat : v.depth = 0) : v.Sorted ∧ v.depth ≤ 0 :=
        ⟨sorted, Nat.le_of_eq flat⟩
      exact readValue_gives_of (scalar .null rfl) (fun _ => scalar .bool rfl) (fun _ => scalar .number rfl)
        (fun _ => scalar .string rfl) nofun nofun
  | succ room ih =>
      refine readValue_gives_of ⟨.null, Nat.zero_le _⟩ (fun _ => ⟨.bool, Nat.zero_le _⟩)
        (fun _ => ⟨.number, Nat.zero_le _⟩) (fun _ => ⟨.string, Nat.zero_le _⟩) ?_ ?_
      · rintro _ ⟨⟩ fuel bytes items rest read
        have each := readItems_gives ih fuel 0 bytes items rest read
        exact ⟨.array fun v member => (each v member).1,
          Value.depth_array_le_iff.mpr fun v member => (each v member).2⟩
      · rintro _ ⟨⟩ fuel bytes members rest read
        have each := readMembers_gives_each ih (List.forall_mem_nil _) bytes members rest read
        have ascending := readMembers_gives List.Pairwise.nil bytes members rest read
        exact ⟨.object ascending fun m member => (each m member).1,
          Value.depth_object_le_iff.mpr fun m member => (each m member).2⟩

end ChainRelay.Json
