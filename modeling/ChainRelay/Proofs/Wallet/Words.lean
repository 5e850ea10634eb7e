import ChainRelay.Wallet.Mnemonic

/-! # The words of phrases

The words of the list are lower-case words. How many bytes a phrase holds is a matter of how many words
it has.
-/

namespace ChainRelay

/-! ## Pieces of a text -/

theorem mem_of_mem_go₂ {c : Char} {cs : List Char} {i e : String.Pos.Raw}
    (member : c ∈ String.Pos.Raw.extract.go₂ cs i e) : c ∈ cs := by
  induction cs generalizing i with
  | nil => cases member
  | cons d rest ih =>
      change c ∈ if i = e then [] else d :: String.Pos.Raw.extract.go₂ rest (i + d) e at member
      split at member
      · cases member
      · rcases List.mem_cons.mp member with rfl | further
        · exact List.mem_cons_self
        · exact List.mem_cons_of_mem d (ih further)

theorem mem_of_mem_go₁ {c : Char} {cs : List Char} {i b e : String.Pos.Raw}
    (member : c ∈ String.Pos.Raw.extract.go₁ cs i b e) : c ∈ cs := by
  induction cs generalizing i with
  | nil => cases member
  | cons d rest ih =>
      change c ∈ if i = b then String.Pos.Raw.extract.go₂ (d :: rest) i e
        else String.Pos.Raw.extract.go₁ rest (i + d) b e at member
      split at member
      · exact mem_of_mem_go₂ member
      · exact List.mem_cons_of_mem d (ih member)

theorem mem_of_mem_extract {s : String} {c : Char} {b e : String.Pos.Raw}
    (member : c ∈ (String.Pos.Raw.extract s b e).toList) : c ∈ s.toList := by
  unfold String.Pos.Raw.extract at member
  dsimp only at member
  split at member
  · simp at member
  · rw [String.toList_ofList] at member
    exact mem_of_mem_go₁ member

theorem mem_of_mem_splitOnAux {s sep piece : String} {c : Char} {b i j : String.Pos.Raw} {before : List String}
    (known : ∀ piece ∈ before, ∀ c ∈ piece.toList, c ∈ s.toList) (member : piece ∈ s.splitOnAux sep b i j before)
    (inside : c ∈ piece.toList) : c ∈ s.toList := by
  have more {b e : String.Pos.Raw} {before : List String}
      (known : ∀ piece ∈ before, ∀ c ∈ piece.toList, c ∈ s.toList) :
      ∀ piece ∈ String.Pos.Raw.extract s b e :: before, ∀ c ∈ piece.toList, c ∈ s.toList :=
    List.forall_mem_cons.mpr ⟨fun _ => mem_of_mem_extract, known⟩
  induction b, i, j, before using String.splitOnAux.induct s sep with
  | case1 b i j before atEnd =>
      rw [String.splitOnAux, if_pos atEnd, List.mem_reverse] at member
      exact more known piece member c inside
  | case2 b i j before inner same next next' atEnd ih =>
      rw [String.splitOnAux, if_neg inner, if_pos same, if_pos atEnd] at member
      exact ih (more known) member
  | case3 b i j before inner same next next' within ih =>
      rw [String.splitOnAux, if_neg inner, if_pos same, if_neg within] at member
      exact ih known member
  | case4 b i j before inner other ih =>
      rw [String.splitOnAux, if_neg inner, if_neg other] at member
      exact ih known member

/-- The pieces of a text have its characters only. -/
theorem mem_of_mem_splitOn {s sep piece : String} {c : Char} (member : piece ∈ s.splitOn sep)
    (inside : c ∈ piece.toList) : c ∈ s.toList := by
  unfold String.splitOn at member
  split at member
  · rwa [List.mem_singleton.mp member] at inside
  · exact mem_of_mem_splitOnAux (by simp) member inside

/-! ## The word list -/

namespace Wallet

theorem all_ofList {p : Char → Bool} {cs : List Char} (each : cs.all p = true) :
    (String.ofList cs).toList.all p = true := by
  rwa [String.toList_ofList]

set_option maxRecDepth 8000 in
theorem englishText_lower : englishText.toList.all (fun c => c == ' ' || c.isLower) = true := by
  unfold englishText
  simp only [String.toList_append, List.all_append, Bool.and_eq_true]
  -- One goal for each line of the list; its characters are those that the literal is made of.
  and_intros <;> exact all_ofList (by decide)

theorem wordIndex?_eq_none {word : String} {c : Char} (inside : c ∈ word.toList) (noLetter : c.isLower = false)
    (noSpace : c ≠ ' ') : wordIndex? word = none := by
  rw [wordIndex?, Array.findIdx?_eq_none_iff]
  intro known member
  rw [beq_eq_false_iff_ne]
  rintro rfl
  have listed : known ∈ englishText.splitOn " " := by simpa [englishTable, english] using member
  have letter := List.all_eq_true.mp englishText_lower c (mem_of_mem_splitOn listed inside)
  simp [noLetter, noSpace] at letter

/-! ## Words and bytes of a phrase -/

theorem length_pieces {fuel : Nat} {xs : List α} (enough : xs.length ≤ fuel) :
    (pieces 8 fuel xs).length = (xs.length + 7) / 8 := by
  induction fuel generalizing xs with
  | zero =>
      have none : xs.length = 0 := by omega
      rw [none]
      rfl
  | succ fuel ih =>
      cases xs with
      | nil => simp [pieces]
      | cons x rest =>
          have fewer : ((x :: rest).drop 8).length ≤ fuel := by
            simp only [List.length_cons, List.length_drop] at enough ⊢
            omega
          have later := ih fewer
          simp only [List.length_drop, List.length_cons] at later
          simp only [pieces, List.isEmpty_cons, Bool.false_eq_true, if_false, List.length_cons, later]
          omega

theorem length_bytesOfBits (bits : List Bool) : (bytesOfBits bits).length = (bits.length + 7) / 8 := by
  rw [bytesOfBits, List.length_map, length_pieces (Nat.le_refl _)]

/-- The number of bytes that so many words take. -/
def byteCount (words : Nat) : Nat :=
  (words * bitsPerWord + 7) / 8

theorem length_bytesOfIndices (indices : List Nat) :
    (bytesOfBits (indices.flatMap (lowBits bitsPerWord))).length = byteCount indices.length := by
  have each (n : Nat) : (lowBits bitsPerWord n).length = bitsPerWord := by simp [lowBits]
  rw [length_bytesOfBits, byteCount]
  simp [List.length_flatMap, each, List.map_const']

theorem wordIndices_unknown {front rest : List String} {word : String} (known : ∀ w ∈ front, (wordIndex? w).isSome)
    (unknown : wordIndex? word = none) : wordIndices (front ++ word :: rest) = .error (.unknownWord word) := by
  induction front with
  | nil => simp [wordIndices, unknown]
  | cons w front ih =>
      obtain ⟨here, others⟩ := List.forall_mem_cons.mp known
      obtain ⟨n, read⟩ := Option.isSome_iff_exists.mp here
      simp [wordIndices, read, ih others, Except.map]

theorem wordIndices_known {words : List String} (known : ∀ w ∈ words, (wordIndex? w).isSome) :
    ∃ indices, wordIndices words = .ok indices ∧ indices.length = words.length := by
  induction words with
  | nil => exact ⟨[], rfl, rfl⟩
  | cons w rest ih =>
      obtain ⟨here, others⟩ := List.forall_mem_cons.mp known
      obtain ⟨n, read⟩ := Option.isSome_iff_exists.mp here
      obtain ⟨indices, more, count⟩ := ih others
      exact ⟨n :: indices, by simp [wordIndices, read, more, Except.map], by simp [count]⟩

/-- The first unknown word is reported. -/
theorem checkPhrase_unknown {phrase : String} {front rest : List String} {word : String}
    (split : phrase.splitOn " " = front ++ word :: rest) (known : ∀ w ∈ front, (wordIndex? w).isSome)
    (unknown : wordIndex? word = none) : checkPhrase phrase = .error (.unknownWord word) := by
  rw [checkPhrase, split, wordIndices_unknown known unknown]
  rfl

/-- Words of the list are refused for their number, or as a phrase. -/
theorem checkPhrase_known {phrase : String} (known : ∀ w ∈ phrase.splitOn " ", (wordIndex? w).isSome) :
    match entropySize? (byteCount (phrase.splitOn " ").length) with
    | none => checkPhrase phrase = .error (.wrongLength (byteCount (phrase.splitOn " ").length))
    | some _ => checkPhrase phrase = .ok () ∨ checkPhrase phrase = .error (.wrongPhrase phrase) := by
  obtain ⟨indices, read, count⟩ := wordIndices_known known
  have bytes := length_bytesOfIndices indices
  rw [count] at bytes
  unfold checkPhrase
  rw [read]
  simp only [bind, Except.bind, bytes]
  cases entropySize? (byteCount (phrase.splitOn " ").length) with
  | none => rfl
  | some size =>
      dsimp only
      split
      · exact .inl rfl
      · exact .inr rfl

end Wallet

end ChainRelay
