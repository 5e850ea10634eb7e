import ChainRelay.Proofs.Args.Completion
import ChainRelay.Proofs.Command.Order
import ChainRelay.Proofs.Command.Unset

/-! # Values that levels share

What an argument has received is found by its id, and putting another one in leaves it alone. So the levels share the
values of each option by themselves: the innermost of the strongest ones is what all of them get.
-/

namespace ChainRelay.Args

namespace Matches

theorem id_of_get? {m : Matches} {id : String} {r : Received} (found : m.get? id = some r) : r.id = id := by
  simpa using List.find?_some found

theorem get?_cons (old : Received) (rest : Matches) (id : String) :
    Matches.get? id (old :: rest) = if old.id = id then some old else Matches.get? id rest := by
  by_cases here : old.id = id
  · simp [get?, here]
  · simp [get?, List.find?_cons_of_neg, here]

theorem outside_erase (ids : List String) (id : String) (m : Matches) :
    (m.erase id).outside ids = (m.outside ids).erase id := by
  simp [outside, erase, List.filter_filter, Bool.and_comm]

theorem get?_erase {id other : String} (apart : other ≠ id) (m : Matches) : (m.erase other).get? id = m.get? id := by
  induction m with
  | nil => rfl
  | cons old rest ih => grind [erase, get?_cons]

theorem get?_replace (m : Matches) (r : Received) (id : String) :
    Matches.get? id (m.map fun old => if old.id == r.id then r else old) =
      if r.id = id then (m.get? id).map fun _ => r else m.get? id := by
  induction m with
  | nil => simp [get?]
  | cons old rest ih => grind [get?_cons]

theorem get?_put (m : Matches) (r : Received) (id : String) :
    (m.put r).get? id = if r.id = id then some r else m.get? id := by
  by_cases there : (m.get? r.id).isSome
  · have held : (m.any fun old => old.id == r.id) = true := by simpa [isSome_get?_iff] using there
    rw [put, if_pos held, get?_replace]
    split
    · next same =>
        obtain ⟨old, found⟩ := Option.isSome_iff_exists.mp there
        rw [← same, found, Option.map_some]
    · rfl
  · rw [put_absent (by simpa using there), get?, List.find?_append, ← get?]
    split
    · next same => simp_all
    · next other => simp [other]

theorem outside_put {ids : List String} {r : Received} (other : r.id ∉ ids) (m : Matches) :
    (m.put r).outside ids = (m.outside ids).put r := by
  have held : ((m.outside ids).any fun old => old.id == r.id) = m.any fun old => old.id == r.id := by
    rw [outside, List.any_filter]
    congr 1
    funext old
    grind
  rw [put, put, held]
  split
  · rw [outside, List.filter_map, outside]
    congr 1
    apply List.filter_congr
    grind
  · simp [outside, other]

theorem nodup_put {m : Matches} (distinct : (m.map (·.id)).Nodup) (r : Received) : ((m.put r).map (·.id)).Nodup := by
  rw [put]
  split
  · have ids : (m.map fun old => if old.id == r.id then r else old).map (·.id) = m.map (·.id) := by
      rw [List.map_map]
      apply List.map_congr_left
      grind
    rwa [ids]
  · next new =>
      rw [List.any_eq_true, not_exists] at new
      rw [List.map_append, List.nodup_append]
      refine ⟨distinct, by simp, ?_⟩
      intro id member last here same
      obtain ⟨old, inside, rfl⟩ := List.mem_map.mp member
      exact new old ⟨inside, by simpa [same] using here⟩

theorem get?_foldl_put {shared : Matches} (distinct : (shared.map (·.id)).Nodup) (m : Matches) (id : String) :
    Matches.get? id (shared.foldl (fun m r => m.put r) m) = (shared.get? id).or (m.get? id) := by
  induction shared generalizing m with
  | nil => rfl
  | cons r rest ih =>
      rw [List.map_cons, List.nodup_cons] at distinct
      rw [List.foldl_cons, ih distinct.2, get?_put, get?_cons]
      split
      · next here =>
          have none : Matches.get? id rest = none := by
            rw [get?_eq_none_iff]
            intro other member same
            exact distinct.1 (here.trans same.symm ▸ List.mem_map_of_mem member)
          rw [none, Option.none_or, Option.some_or]
      · rfl

end Matches

namespace Chain

/-- What is known of an option after one more level. -/
def strengthen (outer inner : Option Received) : Option Received :=
  match inner with
  | some r => some (strongest outer r)
  | none => outer

theorem id_strongest {outer : Option Received} {inner : Received} {id : String}
    (before : ∀ r, outer = some r → r.id = id) (here : inner.id = id) : (strongest outer inner).id = id := by
  cases strongest_eq outer inner with
  | inl same => exact before _ same
  | inr same => rwa [same]

theorem strengthen_twice (known inner : Option Received) :
    strengthen (strengthen known inner) inner = strengthen known inner := by
  cases inner with
  | none => rfl
  | some r => cases known <;> grind [strengthen, strongest]

/-- An id that occurs several times strengthens what is known as one that occurs once. -/
theorem get?_gather (ids : List String) (known m : Matches) (id : String) :
    (gather ids known m).get? id =
      if id ∈ ids then strengthen (known.get? id) (m.get? id) else known.get? id := by
  induction ids generalizing known with
  | nil => rfl
  | cons first rest ih =>
      rw [gather, List.foldl_cons, ← gather, ih]
      cases found : m.get? first with
      | none => grind [strengthen]
      | some r =>
          have named := id_strongest (fun r => Matches.id_of_get? (m := known)) (Matches.id_of_get? found)
          have twice := strengthen_twice (known.get? id) (m.get? id)
          grind [strengthen, Matches.get?_put]

theorem nodup_gather {ids : List String} {known : Matches} (distinct : (known.map (·.id)).Nodup) (m : Matches) :
    ((gather ids known m).map (·.id)).Nodup := by
  unfold gather
  induction ids generalizing known with
  | nil => exact distinct
  | cons first rest ih =>
      rw [List.foldl_cons]
      apply ih
      split
      · exact Matches.nodup_put distinct _
      · exact distinct

/-- The value of an option that the levels share. -/
def sharedValue (id : String) (chain : Chain) : Option Received :=
  (chain.map fun entry => entry.2.get? id).foldl strengthen none

theorem nodup_sharedValues (ids : List String) (chain : Chain) : ((sharedValues ids chain).map (·.id)).Nodup := by
  rw [sharedValues_eq]
  apply List.foldlRecOn (motive := fun m : Matches => (m.map (·.id)).Nodup)
  · exact List.nodup_nil
  · intro known before m _
    exact nodup_gather before m

theorem get?_sharedValues (ids : List String) (chain : Chain) (id : String) :
    (sharedValues ids chain).get? id = if id ∈ ids then chain.sharedValue id else none := by
  have from_ (known : Matches) : ((chain.map (·.2)).foldl (gather ids) known).get? id =
      if id ∈ ids then (chain.map fun entry => entry.2.get? id).foldl strengthen (known.get? id)
      else known.get? id := by
    induction chain generalizing known with
    | nil => simp
    | cons entry rest ih =>
        simp only [List.map_cons, List.foldl_cons] at ih ⊢
        rw [ih, get?_gather]
        split <;> rfl
  rw [sharedValues_eq, from_]
  rfl

/-- What a level has for an id when the levels have shared the values of some options. -/
theorem get?_shared (ids : List String) (chain : Chain) (m : Matches) (id : String) :
    Matches.get? id ((sharedValues ids chain).foldl (fun m r => m.put r) m) =
      (if id ∈ ids then chain.sharedValue id else none).or (m.get? id) := by
  rw [Matches.get?_foldl_put (nodup_sharedValues ids chain), get?_sharedValues]

end Chain

end ChainRelay.Args
