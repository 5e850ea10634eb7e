import Mathlib.Data.List.Basic
import ChainRelay.Command.Tree

/-! # The texts of command paths

The text of a path has its names with spaces between them, and a list of commands has commas as well. A
name is not empty and has no blanks, so paths and lists can be read off their texts.
-/

namespace ChainRelay

theorem plain_of_isCommandName {name : String} (isName : isCommandName name = true) {c : Char}
    (blank : isBlank c = true) : c ∉ name.toList := by
  intro inside
  simp only [isCommandName, Bool.and_eq_true, Bool.not_eq_true', List.any_eq_false] at isName
  exact isName.2 c inside blank

theorem ne_empty_of_isCommandName {name : String} (isName : isCommandName name = true) : name ≠ "" := by
  rintro rfl
  cases isName

/-- Names can be read off the text that puts spaces between them. -/
theorem split_spaced {names : List String} (given : names ≠ []) (plain : ∀ name ∈ names, ' ' ∉ name.toList) :
    ((String.intercalate " " names).split ' ').toList.map (·.copy) = names := by
  have read := String.toList_split_intercalate plain
  rwa [if_neg given] at read

theorem spaced_inj {names others : List String} (given : names ≠ []) (given' : others ≠ [])
    (plain : ∀ name ∈ names, ' ' ∉ name.toList) (plain' : ∀ name ∈ others, ' ' ∉ name.toList)
    (same : String.intercalate " " names = String.intercalate " " others) : names = others := by
  rw [← split_spaced given plain, ← split_spaced given' plain', same]

/-! ## Lists with commas -/

/-- A comma at the end makes a list a row of names that each end in a comma. -/
theorem listed_comma {names : List String} (given : names ≠ []) :
    String.intercalate ", " names ++ "," = String.intercalate " " (names.map (· ++ ",")) := by
  induction names with
  | nil => exact absurd rfl given
  | cons name rest ih =>
      cases rest with
      | nil => simp
      | cons next rest =>
          rw [String.intercalate_cons_cons, String.append_assoc, ih (by simp)]
          simp [String.append_assoc]

theorem listed_inj {names others : List String} (given : names ≠ []) (given' : others ≠ [])
    (plain : ∀ name ∈ names, ' ' ∉ name.toList) (plain' : ∀ name ∈ others, ' ' ∉ name.toList)
    (same : String.intercalate ", " names = String.intercalate ", " others) : names = others := by
  have marked : names.map (· ++ ",") = others.map (· ++ ",") := by
    refine spaced_inj (by simpa) (by simpa) (by simpa using plain) (by simpa using plain') ?_
    rw [← listed_comma given, ← listed_comma given', same]
  exact List.map_injective_iff.mpr (fun a b => (String.append_left_inj ",").mp) marked

/-- In a list every space follows a comma. -/
theorem comma_of_space {names : List String} (plain : ∀ name ∈ names, ' ' ∉ name.toList)
    {front back : List Char} (parts : (String.intercalate ", " names).toList = front ++ ' ' :: back) :
    front.getLast? = some ',' := by
  induction names generalizing front with
  | nil => simp at parts
  | cons name rest ih =>
      have ⟨alone, others⟩ := List.forall_mem_cons.mp plain
      cases rest with
      | nil =>
          rw [String.intercalate_singleton] at parts
          exact absurd (parts ▸ by simp) alone
      | cons next rest =>
          have parts : (name.toList ++ [',']) ++ ' ' :: (String.intercalate ", " (next :: rest)).toList =
              front ++ ' ' :: back := by
            rw [← parts, String.intercalate_cons_cons]
            simp
          rcases List.append_eq_append_iff.mp parts with ⟨m, rfl, behind⟩ | ⟨m, whole, behind⟩
          · cases m with
            | nil => simp
            | cons c m =>
                obtain ⟨-, behind⟩ := List.cons.inj behind
                rw [List.getLast?_append, List.getLast?_cons, ih others behind]
                rfl
          · cases m with
            | nil =>
                rw [List.append_nil] at whole
                simp [← whole]
            | cons c m =>
                obtain ⟨rfl, -⟩ := List.cons.inj behind
                have inside : ' ' ∈ name.toList ++ [','] := whole ▸ by simp
                exact absurd inside (by simpa using alone)

namespace CommandPath

variable {p q : CommandPath}

theorem isCommandName_of_mem (well : p.isWellFormed = true) {name : String} (member : name ∈ p) :
    isCommandName name = true := by
  simp only [isWellFormed, Bool.and_eq_true, List.all_eq_true] at well
  exact well.2 name member

theorem ne_nil_of_isWellFormed (well : p.isWellFormed = true) : p ≠ [] := by
  rintro rfl
  cases well

theorem split_text (well : p.isWellFormed = true) : (p.text.split ' ').toList.map (·.copy) = p :=
  split_spaced (ne_nil_of_isWellFormed well) fun _ member =>
    plain_of_isCommandName (isCommandName_of_mem well member) (by decide)

theorem text_eq_iff (wellP : p.isWellFormed = true) (wellQ : q.isWellFormed = true) : p.text = q.text ↔ p = q := by
  constructor
  · intro same
    rw [← split_text wellP, ← split_text wellQ, same]
  · exact congrArg text

/-- The text of a path ends with its last name. -/
theorem text_append (p : CommandPath) (name : String) :
    ∃ front, CommandPath.text (p ++ [name]) = front ++ name := by
  cases p with
  | nil => exact ⟨"", by simp [text]⟩
  | cons first rest =>
      refine ⟨CommandPath.text (first :: rest) ++ " ", ?_⟩
      rw [text, String.intercalate_append_of_ne_nil (by simp) (by simp), String.intercalate_singleton]
      rfl

theorem notBlank_last (well : p.isWellFormed = true) : ∃ c, p.text.toList.getLast? = some c ∧ isBlank c = false := by
  obtain none | ⟨init, name, rfl⟩ := List.eq_nil_or_concat' p
  · exact absurd none (ne_nil_of_isWellFormed well)
  · have isName := isCommandName_of_mem well (List.mem_append_right init List.mem_cons_self)
    obtain ⟨front, whole⟩ := text_append init name
    cases last : name.toList.getLast? with
    | none => exact absurd (by simpa using last) (ne_empty_of_isCommandName isName)
    | some c =>
        refine ⟨c, ?_, ?_⟩
        · rw [whole, String.toList_append, List.getLast?_append, last]
          rfl
        · by_contra blank
          exact plain_of_isCommandName isName (by simpa using blank) (List.mem_of_getLast? last)

theorem text_ne_empty (well : p.isWellFormed = true) : p.text ≠ "" := by
  intro none
  obtain ⟨c, last, -⟩ := notBlank_last well
  simp [none] at last

end CommandPath

end ChainRelay
