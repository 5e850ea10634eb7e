import ChainRelay.Proofs.Json.ContainerTexts

/-! # The texts of values that are left out

A value that nobody asks for is left out by a loop over its tokens that keeps a stack of the open containers.
It passes over one value, and then over what is left of each container on the stack.
-/

namespace ChainRelay.Json

open Reader

namespace Frame

/-- The items or the members of a container. -/
def Body : Frame → (first : Bool) → List UInt8 → Prop
  | .list => ItemsText
  | .object => MembersText

/-- The byte at the end of a container. -/
def close : Frame → UInt8
  | .list => 0x5D
  | .object => 0x7D

/-- What stands before a value in a container: nothing, or a name. -/
def Label : Frame → List UInt8 → Prop
  | .list, text => text = []
  | .object, text => ∃ ws name gap, Blank ws ∧ StringRest name ∧ Blank gap ∧
      text = ws ++ 0x22 :: name ++ gap ++ [0x3A]

theorem Body.done {frame : Frame} {first : Bool} {ws : List UInt8} (blank : Blank ws) : frame.Body first ws := by
  cases frame with
  | list => exact ItemsText.done blank
  | object => exact MembersText.done blank

theorem Body.next {frame : Frame} {first : Bool} {front label value others : List UInt8} (lead : Lead first front)
    (labelled : frame.Label label) (spaced : Spaced ValueText value) (more : frame.Body false others) :
    frame.Body first (front ++ label ++ value ++ others) := by
  obtain ⟨ws', text, blank', value, rfl⟩ := spaced
  cases frame with
  | list =>
      obtain rfl := labelled
      simpa [Body] using ItemsText.next (lead.append_blank blank') value more
  | object =>
      obtain ⟨ws, name, gap, blank, string, blankGap, rfl⟩ := labelled
      have colon : Colon (gap ++ 0x3A :: ws') := ⟨gap, ws', blankGap, blank', rfl⟩
      simpa [Body] using MembersText.next (lead.append_blank blank) string colon value more

end Frame

/-- What is left of the open containers, the innermost first. -/
inductive Closing : List Frame → List UInt8 → Prop where
  | done : Closing [] []
  | next {frame : Frame} {outer : List Frame} {body rest : List UInt8} (inside : frame.Body false body)
      (more : Closing outer rest) : Closing (frame :: outer) (body ++ frame.close :: rest)

/-- A value in open containers and what is left of them. -/
def ValueThen (frames : List Frame) (text : List UInt8) : Prop :=
  ∃ value rest, Spaced ValueText value ∧ Closing frames rest ∧ text = value ++ rest

/-- The rest of a container, and what is left of those around it. -/
def RestThen (first : Bool) (frame : Frame) (outer : List Frame) (text : List UInt8) : Prop :=
  ∃ body rest, frame.Body first body ∧ Closing outer rest ∧ text = body ++ frame.close :: rest

theorem skipName_takes : skipName.Takes true fun _ => Frame.object.Label := by
  intro next
  refine takes_nextToken fun token => ?_
  cases token with
  | none => exact takes_failAtNext
  | some b =>
      refine takes_ite (fun quote => ?_) fun _ => takes_failAtNext
      refine takes_advance_bind fun next => (skipString_takes next).bind fun _ next => ?_
      refine (takes_mark (fun _ => gives_failAtNext) next).mono ?_
      rintro _ _ ⟨gap, _, blankGap, rfl, rfl⟩ name string ws blank
      exact ⟨ws, name, gap, blank, string, blankGap, by simp [quote]⟩

/-- The loop takes the rest of any container, if it is given fuel for two steps a byte. -/
def SkipsRest (fuel : Nat) : Prop :=
  ∀ (comma : Bool) (frame : Frame) (outer : List Frame) (next : Option UInt8) (again : Nat → Nat),
    (∀ n, 2 * n + 2 ≤ again n) → (skipRestOf fuel comma frame outer).TakesFrom next false
      (fun n => skipRestOf (again n) comma frame outer) fun _ => RestThen (!comma) frame outer

/-- The loop takes a value inside any containers, if it is given fuel for two steps a byte. -/
def SkipsValue (fuel : Nat) : Prop :=
  ∀ (frames : List Frame) (next : Option UInt8) (again : Nat → Nat), (∀ n, 2 * n + 1 ≤ again n) →
    (skipValueIn fuel frames).TakesFrom next false (fun n => skipValueIn (again n) frames) fun _ => ValueThen frames

theorem exists_succ {again : Nat → Nat} (positive : ∀ n, 1 ≤ again n) :
    ∃ less : Nat → Nat, again = fun n => less n + 1 :=
  ⟨fun n => again n - 1, funext fun n => (Nat.sub_add_cancel (positive n)).symm⟩

theorem SkipsRest.closing {fuel : Nat} (skips : SkipsRest fuel) (frames : List Frame) (next : Option UInt8)
    {again : Nat → Nat} (enough : ∀ n, 2 * n + 2 ≤ again n) :
    (match frames with
      | [] => pure ()
      | frame :: outer => skipRestOf fuel true frame outer : Reader Unit).TakesFrom next false
      (fun n => match frames with
        | [] => pure ()
        | frame :: outer => skipRestOf (again n) true frame outer) fun _ => Closing frames := by
  cases frames with
  | nil => exact takes_pure .done
  | cons frame outer =>
      refine (skips true frame outer next again enough).mono ?_
      rintro _ _ ⟨body, rest, inside, more, rfl⟩
      exact .next inside more

/-- A scalar of more than one byte, and what is left of the containers. -/
theorem SkipsRest.scalar {fuel : Nat} (skips : SkipsRest fuel) {frames : List Frame} {b : UInt8} {again : Nat → Nat}
    (enough : ∀ n, 2 * n + 2 ≤ again (n + 1)) {any : Bool} {r : Reader Unit} {L : List UInt8 → Prop}
    (takes : r.Takes any fun _ => L) (value : ∀ text, L text → ValueText (b :: text)) :
    (do
      advance
      r
      match frames with
        | [] => pure ()
        | frame :: outer => skipRestOf fuel true frame outer : Reader Unit).TakesFrom (some b) false
      (fun n => do
        advance
        r
        match frames with
          | [] => pure ()
          | frame :: outer => skipRestOf (again n) true frame outer)
      fun _ text => ∀ ws, Blank ws → ValueThen frames (ws ++ text) := by
  refine takes_advance_bind fun next => (takes next).bind fun _ next => ?_
  refine (skips.closing frames next enough).mono fun _ rest closing text holds ws blank => ?_
  exact ⟨ws ++ b :: text, rest, .intro blank (value text holds), closing, by simp⟩

theorem SkipsRest.value {fuel : Nat} (skips : SkipsRest fuel) : SkipsValue (fuel + 1) := by
  intro frames next again enough
  obtain ⟨less, rfl⟩ := exists_succ fun n => Nat.le_trans (Nat.le_add_left 1 _) (enough n)
  refine takes_nextToken fun token => ?_
  cases token with
  | none => exact takes_failAtNext
  | some b =>
      have enoughLater (n : Nat) : 2 * n + 2 ≤ less (n + 1) := Nat.le_of_succ_le_succ (enough (n + 1))
      refine takes_ite (fun opening => ?_) fun _ => takes_ite (fun opening => ?_) fun _ => ?_
      · refine takes_advance_bind fun next => (skips false .list frames next _ enoughLater).mono ?_
        rintro _ _ ⟨body, rest, inside, more, rfl⟩ ws blank
        exact ⟨_, rest, .intro blank (.array inside), more, by simp [opening, Frame.close]⟩
      · refine takes_advance_bind fun next => (skips false .object frames next _ enoughLater).mono ?_
        rintro _ _ ⟨body, rest, inside, more, rfl⟩ ws blank
        exact ⟨_, rest, .intro blank (.object inside), more, by simp [opening, Frame.close]⟩
      dsimp only
      refine takes_ite (fun null => ?_) fun _ => takes_ite (fun yes => ?_) fun _ => takes_ite (fun no => ?_) fun _ => ?_
      · exact skips.scalar enoughLater (readWord_takes _) fun text word => null ▸ word ▸ .null
      · exact skips.scalar enoughLater (readWord_takes _) fun text word => yes ▸ word ▸ .yes
      · exact skips.scalar enoughLater (readWord_takes _) fun text word => no ▸ word ▸ .no
      refine takes_ite (fun minus => ?_) fun _ => takes_ite (fun digit => ?_) fun _ =>
        takes_ite (fun quote => ?_) fun _ => ?_
      · exact skips.scalar enoughLater skipNumber_takes fun text number => minus ▸ .number (.negative number)
      · refine (skipNumber_takes _).bindLater (fun _ _ number => number.ne_nil) fun _ next => ?_
        refine (skips.closing frames next enoughLater).mono fun _ rest closing text number ws blank => ?_
        exact ⟨ws ++ text, rest, .intro blank (.number (.plain number)), closing, (List.append_assoc _ _ _).symm⟩
      · exact skips.scalar enoughLater skipString_takes fun text string => quote ▸ .string string
      · exact takes_of_fails (gives_failAtNext.then fun _ => False.elim)

/-- An item with its label, after what leads to it. -/
theorem SkipsValue.item {fuel : Nat} (skips : SkipsValue fuel) (frame : Frame) (outer : List Frame)
    (next : Option UInt8) {again : Nat → Nat} (enough : ∀ n, 2 * n + 1 ≤ again n) :
    (if frame = .object then do
        skipName
        skipValueIn fuel (frame :: outer)
      else skipValueIn fuel (frame :: outer) : Reader Unit).TakesFrom next false
      (fun n => if frame = .object then do
          skipName
          skipValueIn (again n) (frame :: outer)
        else skipValueIn (again n) (frame :: outer))
      fun _ text => ∀ first front, Lead first front → RestThen first frame outer (front ++ text) := by
  have follows {label text : List UInt8} (labelled : frame.Label label) (then' : ValueThen (frame :: outer) text)
      (first : Bool) (front : List UInt8) (lead : Lead first front) :
      RestThen first frame outer (front ++ (label ++ text)) := by
    obtain ⟨value, after, spaced, closing, rfl⟩ := then'
    cases closing with
    | @next _ _ body rest inside more =>
        exact ⟨front ++ label ++ value ++ body, rest, .next lead labelled spaced inside, more, by simp⟩
  refine takes_ite (fun object => ?_) fun list => ?_
  · refine (skipName_takes next).bind fun _ next => (skips _ next _ enough).mono ?_
    exact fun _ text more label labelled => follows (object ▸ labelled) more
  · have nothing : frame.Label [] := by
      cases frame with
      | list => rfl
      | object => exact absurd rfl list
    exact (skips _ next _ enough).mono fun _ text => follows nothing

theorem SkipsValue.rest {fuel : Nat} (skips : SkipsRest fuel) (skips' : SkipsValue fuel) : SkipsRest (fuel + 1) := by
  intro comma frame outer next again enough
  obtain ⟨less, rfl⟩ := exists_succ fun n => Nat.le_trans (Nat.le_add_left 1 _) (enough n)
  refine takes_nextToken fun token => ?_
  cases token with
  | none => exact takes_failAtNext
  | some b =>
      have enoughNow (n : Nat) : 2 * n + 1 ≤ less n := Nat.le_of_succ_le_succ (enough n)
      have enoughLater (n : Nat) : 2 * n + 3 ≤ less (n + 1) := enoughNow (n + 1)
      dsimp only
      refine takes_ite (fun separator => ?_) fun _ => takes_ite (fun closes => ?_) fun _ => ?_
      · obtain ⟨rfl, rfl⟩ : comma = true ∧ b = 0x2C := by simpa using separator
        refine takes_advance_bind fun next => (skips'.item frame outer next fun n => ?_).mono ?_
        · exact Nat.le_trans (Nat.le_add_right _ 2) (enoughLater n)
        · intro _ text more ws blank
          have lead : Lead false (ws ++ [0x2C]) := ⟨ws, [], blank, blank_nil, (List.append_nil _).symm⟩
          simpa using more false _ lead
      · refine takes_advance_bind fun next => (skips.closing outer next fun n => ?_).mono ?_
        · exact Nat.le_trans (Nat.le_add_right _ 1) (enoughLater n)
        · intro _ rest more ws blank
          have closed : b = frame.close := by
            cases frame with
            | list => exact closes
            | object => exact closes
          exact ⟨ws, rest, .done blank, more, closed ▸ rfl⟩
      · refine takes_ite (fun _ => takes_failAtNext) fun first => ?_
        obtain rfl : comma = false := by simpa using first
        refine (skips'.item frame outer _ enoughNow).mono fun _ text more ws blank => more true ws ?_
        exact ⟨ws, [], blank, blank_nil, by simp [comma]⟩

theorem skips (fuel : Nat) : SkipsRest fuel ∧ SkipsValue fuel := by
  induction fuel with
  | zero => exact ⟨fun _ _ _ _ _ _ => takes_failHere, fun _ _ _ _ => takes_failHere⟩
  | succ fuel ih => exact ⟨ih.2.rest ih.1, ih.1.value⟩

theorem skipValue_takes : skipValue.TakesValue := by
  intro next
  refine takes_bound fun fuel => ((skips (2 * fuel)).2 [] next (fun n => 2 * (n + 1)) fun n => ?_).mono ?_
  · omega
  · rintro _ _ ⟨value, _, spaced, ⟨⟩, rfl⟩
    rwa [List.append_nil]

end ChainRelay.Json
