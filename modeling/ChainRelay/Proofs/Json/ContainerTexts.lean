import ChainRelay.Proofs.Json.NumberTexts
import ChainRelay.Proofs.Json.StringTexts

/-! # The texts of containers

What lies between the tokens of a list and of an object: commas, colons and blanks. A list is taken if its
items are, and an object if the values of its members are.
-/

namespace ChainRelay.Json

open Reader

/-- The reader takes values. -/
def Reader.TakesValue (r : Reader α) : Prop :=
  r.Takes false fun _ => Spaced ValueText

/-- Containers are values. -/
theorem Reader.Takes.value {closed : Bool} {r : Reader α} (takes : r.Takes closed fun _ => Spaced ContainerText) :
    r.TakesValue :=
  fun next => (takes next).opened.mono fun _ _ => .mono fun _ => ContainerText.value

/-- A mark that has to come next. -/
theorem takes_mark {p : Problem} {mark : UInt8} {other : UInt8 → Reader Unit}
    (refuses : ∀ b, (other b).Gives fun _ => False) :
    (do
      match ← nextToken with
      | none => failAtNext p
      | some b => if b = mark then advance else other b : Reader Unit).Takes true fun _ => Spaced (· = [mark]) := by
  intro next
  refine takes_nextToken fun token => ?_
  cases token with
  | none => exact takes_failAtNext
  | some b =>
      refine takes_ite (fun same => ?_) fun _ => takes_of_fails (refuses b)
      exact takes_advance.mono fun _ text here ws blank => .intro blank (here.trans (congrArg (fun c => [c]) same))

/-! ## Lists -/

theorem nextItem_takes (first : Bool) : (nextItem first).Takes false fun follows text =>
    (follows = true → Lead first text) ∧ (follows = false → Blank text) := by
  intro next
  refine takes_nextToken fun token => ?_
  cases token with
  | none => exact takes_failAtNext
  | some b =>
      refine takes_ite (fun _ => takes_pure fun ws blank => ⟨by simp, fun _ => ?_⟩) fun _ => ?_
      · rwa [List.append_nil]
      refine takes_ite (fun isFirst => takes_pure fun ws blank => ⟨fun _ => ?_, by simp⟩) fun later => ?_
      · exact ⟨ws, [], blank, blank_nil, by simp [isFirst, comma]⟩
      refine takes_ite (fun separator => takes_advance_bind fun next => ?_) fun _ => takes_failAtNext
      refine takes_nextToken fun token => ?_
      cases token with
      | none => exact takes_failAtNext
      | some c =>
          refine takes_ite (fun _ => takes_failAtNext) fun _ => takes_pure ?_
          intro after blank' before blank
          exact ⟨fun _ => ⟨before, after, blank, blank', by simp [separator, later, comma]⟩, by simp⟩

theorem closeList_takes : closeList.Takes true fun _ => Spaced (· = [0x5D]) := by
  refine takes_mark fun b => ?_
  split
  · refine gives_bind fun _ => gives_bind fun token => ?_
    split
    · exact gives_failAtNext
    · exact gives_failAtNext
  · exact gives_failAtNext

theorem readItems_takes {item : Reader α} (takes : item.TakesValue) (fuel index : Nat)
    (next : Option UInt8) :
    (readItems item fuel index).TakesFrom next false (fun n => readItems item (n + 1) index) fun _ =>
      ItemsText (index == 0) := by
  induction fuel generalizing index next with
  | zero => exact takes_failHere
  | succ fuel ih =>
      refine (nextItem_takes _ next).bind fun follows next => takes_ite (fun yes => ?_) fun no => ?_
      · refine ((takes next).below _).bindLater (fun _ _ value => value.ne_nil) fun v next => ?_
        refine TakesFrom.then_pure ((ih (index + 1) next).mono fun _ others more item value front lead => ?_)
        obtain ⟨ws, text, blank, value, rfl⟩ := value
        simpa using ItemsText.next ((lead.1 yes).append_blank blank) value more
      · refine takes_pure fun ws blank => ?_
        rw [List.append_nil]
        exact .done (blank.2 (by simpa using no))

/-! ## Objects -/

/-- What leads to a member, and its name. -/
def NamedLead (first : Bool) (text : List UInt8) : Prop :=
  ∃ front body, Lead first front ∧ StringRest body ∧ text = front ++ 0x22 :: body

theorem nextName_takes (first : Bool) : (nextName first).Takes false fun name text =>
    (name.isSome = true → NamedLead first text) ∧ (name = none → Blank text) := by
  intro next
  refine TakesFrom.below (takes_nextToken fun token => ?_) _
  cases token with
  | none => exact takes_failAtNext
  | some b =>
      refine takes_ite (fun _ => takes_pure fun ws blank => ⟨by simp, fun _ => ?_⟩) fun _ => ?_
      · rwa [List.append_nil]
      refine takes_ite (fun isFirst => takes_ite (fun quote => ?_) fun _ => takes_failAtNext) fun later => ?_
      · refine takes_advance_bind fun next => ((readString_takes next).opened.mono ?_).map
        intro s body string ws blank
        have lead : Lead first ws := ⟨ws, [], blank, blank_nil, by simp [isFirst, comma]⟩
        exact ⟨fun _ => ⟨ws, body, lead, string, quote ▸ rfl⟩, by simp⟩
      refine takes_ite (fun separator => takes_advance_bind fun next => ?_) fun _ => takes_failAtNext
      refine takes_nextToken fun token => ?_
      cases token with
      | none => exact takes_failAtNext
      | some c =>
          refine takes_ite (fun quote => ?_) fun _ =>
            takes_ite (fun _ => takes_failAtNext) fun _ => takes_failAtNext
          refine takes_advance_bind fun next => ((readString_takes next).opened.mono ?_).map
          intro s body string after blank' before blank
          have lead : Lead first (before ++ [b] ++ after) :=
            ⟨before, after, blank, blank', by simp [separator, later, comma]⟩
          exact ⟨fun _ => ⟨before ++ [b] ++ after, body, lead, string, by simp [quote]⟩, by simp⟩

theorem readColon_takes : readColon.Takes true fun _ => Spaced (· = [0x3A]) :=
  takes_mark fun _ => gives_failAtNext

theorem readMember_takes {r : Reader α} (name : String) (takes : r.TakesValue) :
    (readMember name r).Takes false fun _ text =>
      ∃ gap value, Colon gap ∧ ValueText value ∧ text = gap ++ value := by
  intro next
  refine (readColon_takes next).bind fun _ next => ((takes next).below _).mono ?_
  rintro a _ ⟨ws', value, blank', read, rfl⟩ _ ⟨ws, _, blank, rfl, rfl⟩
  exact ⟨ws ++ 0x3A :: ws', value, ⟨ws, ws', blank, blank', rfl⟩, read, by simp⟩

theorem closeObject_takes : closeObject.Takes true fun _ => Spaced (· = [0x7D]) := by
  refine takes_mark fun b => ?_
  split
  · exact gives_failAtNext
  · exact gives_failAtNext

/-- A member behind its name, and the members after it. -/
theorem takes_member {r : Reader α} (name : String) (takes : r.TakesValue) {f : α → Reader β}
    {again : Nat → α → Reader β}
    (later : ∀ v next, (f v).TakesFrom next false (fun n => again (n + 1) v) fun _ => MembersText false)
    (next : Option UInt8) :
    (readMember name r >>= f).TakesFrom next false (fun n => readMember name r >>= again n) fun _ text =>
      ∀ first front, NamedLead first front → MembersText first (front ++ text) := by
  refine (readMember_takes name takes next).bindLater ?_ fun v next => (later v next).mono ?_
  · rintro _ _ ⟨gap, value, -, value', rfl⟩
    exact List.append_ne_nil_of_right_ne_nil _ value'.ne_nil
  · rintro _ others more _ ⟨gap, value, colon, value', rfl⟩ first _ ⟨front, body, lead, string, rfl⟩
    simpa using MembersText.next lead string colon value' more

theorem readMembers_takes {r : Reader Value} (takes : r.TakesValue) (fuel : Nat) (first : Bool) (found : Members)
    (next : Option UInt8) :
    (readMembers r fuel first found).TakesFrom next false (fun n => readMembers r (n + 1) first found) fun _ =>
      MembersText first := by
  induction fuel generalizing first found next with
  | zero => exact takes_failHere
  | succ fuel ih =>
      refine (nextName_takes first next).bind fun name next => ?_
      cases name with
      | none =>
          refine takes_pure fun ws blank => ?_
          rw [List.append_nil]
          exact .done (blank.2 rfl)
      | some name =>
          refine (takes_member name takes (fun v next => ih _ _ next) next).mono ?_
          exact fun _ text more front named => more first front (named.1 rfl)

/-! ## Values -/

theorem takes_word {b c : UInt8} {word : List UInt8} (same : b = c) (value : ValueText (c :: word)) (a : α) :
    (do
      advance
      readWord word
      return a : Reader α).TakesFrom (some b) false (fun _ => do
        advance
        readWord word
        return a) fun _ text => ∀ ws, Blank ws → Spaced ValueText (ws ++ text) := by
  refine takes_advance_bind fun next => ((readWord_takes word next).mono ?_).then_pure
  exact fun _ text here ws blank => same ▸ here ▸ .intro blank value

theorem readText_takes : readText.TakesValue := by
  intro next
  refine takes_firstOfValue fun b => takes_ite (fun quote => ?_) fun _ => takes_of_fails failOnNext_gives
  refine takes_advance_bind fun next => (readString_takes next).opened.mono fun s text string ws blank => ?_
  exact quote ▸ .intro blank (.string string)

theorem readBool_takes : readBool.TakesValue := by
  intro next
  exact takes_firstOfValue fun b => takes_ite (fun yes => takes_word yes .yes true) fun _ =>
    takes_ite (fun no => takes_word no .no false) fun _ => takes_of_fails failOnNext_gives

theorem readOptional_takes {r : Reader α} (takes : r.TakesValue) : (readOptional r).TakesValue := by
  intro next
  refine takes_nextToken fun token => takes_ite (fun null => ?_) fun _ => ?_
  · obtain rfl := beq_iff_eq.mp null
    exact takes_word rfl .null none
  · exact ((takes _).mono fun _ text value ws blank => value.blank_append blank).map

/-- A list between its brackets. -/
theorem takes_list {item : Reader α} (takes : item.TakesValue) {f : List α → β} (next : Option UInt8) :
    (do
      let items ← readItems item (← bound) 0
      closeList
      return f items : Reader β).TakesFrom next true (fun _ => do
        let items ← readItems item (← bound) 0
        closeList
        return f items) fun _ text => ∀ ws, Blank ws → Spaced ValueText (ws ++ 0x5B :: text) := by
  refine takes_bound fun fuel => (readItems_takes takes fuel 0 next).bind fun items next => ?_
  refine ((closeList_takes next).mono ?_).then_pure
  rintro _ _ ⟨gap, _, blank', rfl, rfl⟩ body items ws blank
  have value := ValueText.array (items.append_blank blank')
  simpa using Spaced.intro blank value

theorem readList_takes {item : Nat → Reader α} (takes : ∀ inner, (item inner).TakesValue) (room : Nat) :
    (readList item room).TakesValue := by
  intro next
  refine takes_firstOfValue fun b => takes_ite (fun opening => ?_) fun _ => takes_of_fails failOnNext_gives
  cases room with
  | zero => exact takes_failAtNext
  | succ inner => exact takes_advance_bind fun next => opening ▸ (takes_list (takes inner) next).opened

/-- An object of any members between its braces. -/
theorem takes_object {r : Reader Value} (takes : r.TakesValue) {f : Members → β} (next : Option UInt8) :
    (do
      let members ← readMembers r (← bound) true []
      closeObject
      return f members : Reader β).TakesFrom next true (fun _ => do
        let members ← readMembers r (← bound) true []
        closeObject
        return f members) fun _ text => ∀ ws, Blank ws → Spaced ValueText (ws ++ 0x7B :: text) := by
  refine takes_bound fun fuel => (readMembers_takes takes fuel true [] next).bind fun members next => ?_
  refine ((closeObject_takes next).mono ?_).then_pure
  rintro _ _ ⟨gap, _, blank', rfl, rfl⟩ body members ws blank
  have value := ValueText.object (members.append_blank blank')
  simpa using Spaced.intro blank value

/-- A value is taken if the parts of containers are. -/
theorem readValue_takes_of {room : Nat} (parts : ∀ inner, room = inner + 1 → (readValue inner).TakesValue) :
    (readValue room).TakesValue := by
  intro next
  unfold readValue
  refine takes_nextToken fun token => ?_
  cases token with
  | none => exact takes_failAtNext
  | some b =>
      refine takes_ite (fun null => takes_word null .null _) fun _ => ?_
      refine takes_ite (fun yes => takes_word yes .yes _) fun _ => ?_
      refine takes_ite (fun no => takes_word no .no _) fun _ => ?_
      refine takes_ite (fun _ => ?_) fun _ => takes_ite (fun quote => ?_) fun _ => ?_
      · exact ((readNumber_takes _).mono fun _ text number ws blank => .intro blank (.number number)).then_pure
      · refine takes_advance_bind fun next => ((readString_takes next).opened.mono ?_).then_pure
        exact fun _ text string ws blank => quote ▸ .intro blank (.string string)
      refine takes_ite (fun opening => ?_) fun _ => takes_ite (fun opening => ?_) fun _ => takes_failAtNext
      · cases room with
        | zero => exact takes_failAtNext
        | succ inner => exact takes_advance_bind fun next => opening ▸ (takes_list (parts inner rfl) next).opened
      · cases room with
        | zero => exact takes_failAtNext
        | succ inner => exact takes_advance_bind fun next => opening ▸ (takes_object (parts inner rfl) next).opened

theorem readValue_takes (room : Nat) : (readValue room).TakesValue := by
  induction room with
  | zero => exact readValue_takes_of nofun
  | succ room ih =>
      refine readValue_takes_of ?_
      rintro _ ⟨⟩
      exact ih

end ChainRelay.Json
