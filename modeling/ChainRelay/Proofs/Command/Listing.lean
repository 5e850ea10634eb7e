import ChainRelay.Proofs.Command.History
import ChainRelay.Proofs.Command.Selection
import ChainRelay.Proofs.Command.Texts

/-! # Refusals that list commands

A refusal of a command line has a line with the commands below the nearest one, if there are any. The line
stands last and has no line break, so it can be cut off, and the nearest command and those below it can be
read off it.
-/

namespace ChainRelay

open Args

/-! ## Parts of texts -/

/-- The last separator is the one behind which there is no other. -/
theorem append_cons_inj_of_notMem_right {α : Type u} {c : α} {front front' back back' : List α} (absent : c ∉ back)
    (absent' : c ∉ back') (same : front ++ c :: back = front' ++ c :: back') : front = front' ∧ back = back' := by
  rcases List.append_eq_append_iff.mp same with ⟨m, rfl, behind⟩ | ⟨m, rfl, behind⟩
  · cases m with
    | nil => simpa using behind
    | cons d m =>
        obtain ⟨-, rfl⟩ := List.cons.inj behind
        simp at absent
  · cases m with
    | nil => simpa [eq_comm] using behind
    | cons d m =>
        obtain ⟨-, rfl⟩ := List.cons.inj behind
        simp at absent'

theorem mem_intercalate {sep : String} {names : List String} {c : Char}
    (inside : c ∈ (String.intercalate sep names).toList) : c ∈ sep.toList ∨ ∃ name ∈ names, c ∈ name.toList := by
  induction names with
  | nil => simp at inside
  | cons name rest ih =>
      cases rest with
      | nil => exact .inr ⟨name, by simp, by simpa using inside⟩
      | cons next rest =>
          rw [String.intercalate_cons_cons] at inside
          simp only [String.toList_append, List.mem_append] at inside
          rcases inside with (here | mark) | later
          · exact .inr ⟨name, by simp, here⟩
          · exact .inl mark
          · rcases ih later with mark | ⟨other, member, inside⟩
            · exact .inl mark
            · exact .inr ⟨other, List.mem_cons_of_mem _ member, inside⟩

theorem lineBreak_notMem_intercalate (sep : String) (noBreak : '\n' ∉ sep.toList) {names : List String}
    (each : ∀ name ∈ names, isCommandName name = true) : '\n' ∉ (String.intercalate sep names).toList := by
  intro inside
  rcases mem_intercalate inside with mark | ⟨name, member, inside⟩
  · exact noBreak mark
  · exact plain_of_isCommandName (each name member) (by decide) inside

/-- What stands between a path and a list does not come again in the list: there a space follows a comma. -/
theorem nil_of_mark {names : List String} (plain : ∀ name ∈ names, ' ' ∉ name.toList) {front back : List Char}
    (same : '`' :: ':' :: ' ' :: (String.intercalate ", " names).toList = front ++ '`' :: ':' :: ' ' :: back) :
    front = [] := by
  match front with
  | [] => rfl
  | [c] => simp at same
  | [c, d] => simp at same
  | c :: d :: e :: front =>
      simp only [List.cons_append, List.cons.injEq] at same
      have parts : (String.intercalate ", " names).toList = (front ++ ['`', ':']) ++ ' ' :: back := by
        simpa using same.2.2.2
      have comma := comma_of_space plain parts
      simp at comma

/-! ## The line with the commands -/

namespace UsageError

variable {u u' : UsageError}

/-- The line that lists the commands below the nearest one. -/
def listing (u : UsageError) : String :=
  "available commands" ++ (if u.nearest.isEmpty then "" else " under `" ++ u.nearest.text ++ "`") ++ ": " ++
    String.intercalate ", " u.suggestions

theorem text_silent (silent : u.suggestions = []) : u.text = u.message := by
  simp [text, hint, silent]

theorem toList_text (given : u.suggestions ≠ []) :
    u.text.toList = u.message.toList ++ '\n' :: u.listing.toList := by
  have given : u.suggestions.isEmpty = false := by simpa using given
  unfold listing
  simp [text, hint, given]

theorem toList_listing_root (root : u.nearest = []) :
    u.listing.toList = "available commands".toList ++ ':' :: ' ' :: (String.intercalate ", " u.suggestions).toList := by
  unfold listing
  simp [root]

theorem toList_listing_below (well : u.nearest.isWellFormed = true) :
    u.listing.toList = "available commands under `".toList ++
      (u.nearest.text.toList ++ '`' :: ':' :: ' ' :: (String.intercalate ", " u.suggestions).toList) := by
  have below : u.nearest.isEmpty = false := by simpa using CommandPath.ne_nil_of_isWellFormed well
  unfold listing
  simp [below]

/-- A refusal that lists the commands below the nearest one. -/
structure Lists (u : UsageError) : Prop where
  place : u.nearest = [] ∨ u.nearest.isWellFormed = true
  given : u.suggestions ≠ []
  names : ∀ name ∈ u.suggestions, isCommandName name = true
  /-- The message begins with the word "error". -/
  opens : u.message.toList.head? = some 'e'

namespace Lists

theorem plain (lists : u.Lists) : ∀ name ∈ u.suggestions, ' ' ∉ name.toList :=
  fun name member => plain_of_isCommandName (lists.names name member) (by decide)

theorem noBreak (lists : u.Lists) : '\n' ∉ u.listing.toList := by
  have list := lineBreak_notMem_intercalate ", " (by decide) lists.names
  rcases lists.place with root | well
  · rw [toList_listing_root root]
    simpa using list
  · have path : '\n' ∉ u.nearest.text.toList :=
      lineBreak_notMem_intercalate " " (by decide) fun _ => CommandPath.isCommandName_of_mem well
    rw [toList_listing_below well]
    simpa using And.intro path list

theorem listing_inj (lists : u.Lists) (lists' : u'.Lists) (same : u.listing = u'.listing) :
    u.nearest = u'.nearest ∧ u.suggestions = u'.suggestions := by
  have names (same : (String.intercalate ", " u.suggestions).toList = (String.intercalate ", " u'.suggestions).toList) :
      u.suggestions = u'.suggestions :=
    listed_inj lists.given lists'.given lists.plain lists'.plain (String.toList_inj.mp same)
  have same := congrArg String.toList same
  rcases lists.place with root | well <;> rcases lists'.place with root' | well'
  · rw [toList_listing_root root, toList_listing_root root'] at same
    exact ⟨root.trans root'.symm, names (by simpa using same)⟩
  · rw [toList_listing_root root, toList_listing_below well'] at same
    simp at same
  · rw [toList_listing_below well, toList_listing_root root'] at same
    simp at same
  · rw [toList_listing_below well, toList_listing_below well'] at same
    have paths (same : u.nearest.text.toList = u'.nearest.text.toList) : u.nearest = u'.nearest :=
      (CommandPath.text_eq_iff well well').mp (String.toList_inj.mp same)
    -- The longer of the two paths would take what stands behind the shorter one into itself.
    rcases List.append_eq_append_iff.mp (List.append_cancel_left same) with ⟨m, path, behind⟩ | ⟨m, path, behind⟩
    · obtain rfl := nil_of_mark lists.plain behind
      exact ⟨paths (by simpa using path.symm), names (by simpa using behind)⟩
    · obtain rfl := nil_of_mark lists'.plain behind
      exact ⟨paths (by simpa using path), names (by simpa using behind.symm)⟩

theorem text_inj (lists : u.Lists) (lists' : u'.Lists) (same : u.text = u'.text) : u = u' := by
  have same := congrArg String.toList same
  rw [toList_text lists.given, toList_text lists'.given] at same
  obtain ⟨messages, listings⟩ := append_cons_inj_of_notMem_right lists.noBreak lists'.noBreak same
  obtain ⟨nearest, suggestions⟩ := lists.listing_inj lists' (String.toList_inj.mp listings)
  have messages := String.toList_inj.mp messages
  cases u
  cases u'
  simp_all

end Lists

end UsageError

/-! ## What a tree refuses -/

theorem Args.Failure.head?_message (f : Failure) : f.message.toList.head? = some 'e' := by
  have seen : EscapeState.text.step 'e' = (.text, true) := by decide
  unfold message
  simp [plainText, EscapeState.seen, seen]

namespace Tree

variable {H : Type u} {t : Tree H} {xs : List (Offer H)}

theorem message_usageError (t : Tree H) (tokens : List RawText) (message : String) :
    (t.usageError tokens message).message = trimBlanksRight message := rfl

theorem Grown.isWellFormed_above (grown : t.Grown xs) {x : Offer H} (member : x ∈ xs) {p : CommandPath}
    (above : p <+: x.path) (named : p ≠ []) : p.isWellFormed = true :=
  isWellFormed_iff_sound.mpr (CommandPath.Sound.above (grown.suits x member).1 above named)

/-- A tree that has grown lists names below a path, as its refusals of command lines do. -/
theorem Grown.lists (grown : t.Grown xs) {argv : List RawText} {u : UsageError} (refused : t.route argv = .error u)
    (given : u.suggestions ≠ []) : u.Lists where
  place := by
    rcases (grown.guides refused).reached with root | ⟨x, member, above⟩
    · exact .inl root
    · by_cases root : u.nearest = []
      · exact .inl root
      · exact .inr (grown.isWellFormed_above member above root)
  given := given
  names := by
    intro name inside
    obtain ⟨x, member, above⟩ := ((grown.guides refused).suggestions name).mp inside
    exact CommandPath.isCommandName_of_mem (grown.isWellFormed_above member above (by simp)) (by simp)
  opens := by
    obtain ⟨f, rfl⟩ | rfl := usageError_of_route refused
    · exact head?_trimBlanksRight f.head?_message (by decide)
    · exact head?_trimBlanksRight rfl (by decide)

end Tree

end ChainRelay
