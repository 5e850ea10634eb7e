import ChainRelay.Args.Parse

/-! # Tokens with a dash in front

A token is read by the dashes in front of it, and a long name by the first equals sign.
-/

namespace ChainRelay.Args

/-! ## Equals signs -/

theorem splitOnce_append {c : Char} {front : List Char} (absent : c ∉ front) (rest : RawText) :
    RawText.splitOnce c (front.map .char ++ .char c :: rest) = some (front.map .char, rest) := by
  induction front with
  | nil => simp [RawText.splitOnce]
  | cons d front ih =>
      rw [List.mem_cons, not_or] at absent
      have other : RawUnit.char d ≠ .char c := by simpa [eq_comm] using absent.1
      simp [RawText.splitOnce, other, ih absent.2]

theorem splitOnce_eq_none_iff {c : Char} {front : List Char} :
    RawText.splitOnce c (front.map .char) = none ↔ c ∉ front := by
  induction front with
  | nil => exact iff_of_true rfl List.not_mem_nil
  | cons d front ih =>
      rw [List.map_cons, RawText.splitOnce, List.mem_cons, not_or, ← ih]
      by_cases same : c = d
      · simp [same]
      · simp [same, Ne.symm same]

/-! ## Dashes -/

theorem dashToken?_of_word {v : RawText} (word : v.head? ≠ some (.char '-')) : dashToken? v = none := by
  cases v with
  | nil => rfl
  | cons u rest =>
      have other : u ≠ .char '-' := by simpa using word
      unfold dashToken?
      split <;> simp_all

theorem eq_of_short {t names : RawText} (dash : dashToken? t = some (.short names)) :
    ∃ u rest, names = u :: rest ∧ t = .char '-' :: u :: rest ∧ u ≠ .char '-' := by
  unfold dashToken? at dash
  split at dash
  · cases dash
  · split at dash <;> cases dash
  · next u rest _ other =>
      cases dash
      exact ⟨u, rest, rfl, rfl, other⟩
  · cases dash

theorem eq_of_long {t name : RawText} {value : Option RawText} (dash : dashToken? t = some (.long name value)) :
    ∃ body, t = .char '-' :: .char '-' :: body ∧
      (value = none ∧ name = body ∧ RawText.splitOnce '=' body = none ∨
        ∃ v, value = some v ∧ RawText.splitOnce '=' body = some (name, v)) := by
  unfold dashToken? at dash
  split at dash
  · cases dash
  · split at dash
    · next here =>
        cases dash
        exact ⟨_, rfl, .inr ⟨_, rfl, here⟩⟩
    · next whole =>
        cases dash
        exact ⟨_, rfl, .inl ⟨rfl, rfl, whole⟩⟩
  · cases dash
  · cases dash

end ChainRelay.Args
