import ChainRelay.Command.Tree

/-! # Insertion into the command tree

Insertion claims exactly one path and creates exactly the groups that lead to it. A tree is therefore
known by the fragments that it took: they decide every claim, every group and every listed path.
-/

namespace ChainRelay

namespace Node

variable {H : Type u}

/-- What a path below a command has been claimed for. -/
def claimAt (n : Node H) (p : CommandPath) : Option (Claim H) :=
  (n.get? p).bind (·.claim)

@[simp] theorem get?_nil (n : Node H) : n.get? [] = some n := rfl

theorem get?_cons (n : Node H) (name : String) (rest : CommandPath) :
    n.get? (name :: rest) = (n.child? name).bind (·.get? rest) := rfl

theorem get?_singleton (n : Node H) (name : String) : n.get? [name] = n.child? name := by
  rw [get?_cons]
  cases n.child? name <;> rfl

theorem get?_append (n : Node H) (p q : CommandPath) :
    n.get? (p ++ q) = (n.get? p).bind (·.get? q) := by
  induction p generalizing n with
  | nil => rfl
  | cons name rest ih =>
      rw [List.cons_append, get?_cons, get?_cons]
      cases n.child? name with
      | none => rfl
      | some child => exact ih child

@[simp] theorem claimAt_nil (n : Node H) : n.claimAt [] = n.claim := rfl

theorem claimAt_cons (n : Node H) (name : String) (rest : CommandPath) :
    n.claimAt (name :: rest) = (n.child? name).bind (·.claimAt rest) := by
  rw [claimAt, get?_cons, Option.bind_assoc]
  rfl

theorem child?_cons (claim : Option (Claim H)) (name other : String) (n : Node H)
    (rest : List (String × Node H)) :
    child? ⟨claim, (name, n) :: rest⟩ other =
      if other = name then some n else child? ⟨claim, rest⟩ other := by
  unfold child?
  rw [List.find?_cons]
  by_cases same : other = name
  · simp [same]
  · have different : (name == other) = false := by simpa using fun eq => same eq.symm
    simp only [different, same, if_false]

theorem get?_empty_cons (name : String) (rest : CommandPath) :
    (empty : Node H).get? (name :: rest) = none := rfl

theorem claimAt_empty (p : CommandPath) : (empty : Node H).claimAt p = none := by
  cases p <;> rfl

/-- Changing one child leaves the others. -/
theorem child?_changeChild (claim : Option (Claim H)) (name other : String) (f : Node H → Node H)
    (children : List (String × Node H)) :
    child? ⟨claim, changeChild name f children⟩ other =
      if other = name then some (f ((child? ⟨claim, children⟩ name).getD empty))
      else child? ⟨claim, children⟩ other := by
  induction children with
  | nil =>
      rw [changeChild, child?_cons]
      rfl
  | cons entry rest ih =>
      obtain ⟨first, n⟩ := entry
      rw [changeChild]
      by_cases here : first = name
      · subst here
        simp only [if_true, child?_cons]
        by_cases same : other = first <;> simp [same]
      · simp only [here, if_false, child?_cons, ih, Ne.symm here]
        by_cases same : other = first
        · simp [same, here]
        · simp [same]

theorem child?_insert_cons (c : Claim H) (name other : String) (rest : CommandPath) (n : Node H) :
    (n.insert c (name :: rest)).child? other =
      if other = name then some (((n.child? name).getD empty).insert c rest) else n.child? other :=
  child?_changeChild n.claim name other (insert c rest) n.children

/-- Insertion claims its path and changes no other claim. -/
theorem claimAt_insert (c : Claim H) (p q : CommandPath) (n : Node H) :
    (n.insert c p).claimAt q = if q = p then some c else n.claimAt q := by
  induction p generalizing n q with
  | nil => cases q <;> rfl
  | cons name rest ih =>
      cases q with
      | nil => rfl
      | cons other below =>
          rw [claimAt_cons, claimAt_cons, child?_insert_cons]
          by_cases here : other = name
          · subst here
            simp only [if_true, Option.bind_some, ih, List.cons.injEq, true_and]
            cases n.child? other with
            | none => simp [claimAt_empty]
            | some child => simp
          · simp [here]

/-- Insertion creates the commands that lead to its path and no others. -/
theorem isSome_get?_insert (c : Claim H) (p q : CommandPath) (n : Node H) :
    ((n.insert c p).get? q).isSome ↔ (n.get? q).isSome ∨ q <+: p := by
  induction p generalizing n q with
  | nil =>
      cases q with
      | nil => simp
      | cons name rest =>
          have same : (n.insert c []).get? (name :: rest) = n.get? (name :: rest) := rfl
          simp [same]
  | cons name rest ih =>
      cases q with
      | nil => simp
      | cons other below =>
          rw [get?_cons, get?_cons, child?_insert_cons]
          by_cases here : other = name
          · subst here
            simp only [if_true, Option.bind_some, ih, List.cons_prefix_cons, true_and]
            cases n.child? other with
            | none => cases below <;> simp [get?_empty_cons]
            | some child => simp
          · simp [here, List.cons_prefix_cons]

/-- No two commands below one command have the same name. -/
inductive Orderly : Node H → Prop where
  | intro {claim : Option (Claim H)} {children : List (String × Node H)}
      (distinct : (children.map (·.1)).Nodup) (below : ∀ entry ∈ children, Orderly entry.2) :
      Orderly ⟨claim, children⟩

theorem orderly_empty : (empty : Node H).Orderly :=
  .intro List.nodup_nil (by simp)

theorem names_changeChild (name : String) (f : Node H → Node H) (children : List (String × Node H)) :
    (changeChild name f children).map (·.1) =
      if name ∈ children.map (·.1) then children.map (·.1) else children.map (·.1) ++ [name] := by
  induction children with
  | nil => rfl
  | cons entry rest ih =>
      obtain ⟨first, n⟩ := entry
      rw [changeChild]
      by_cases here : first = name
      · simp [here]
      · simp only [here, if_false, List.map_cons, ih, List.mem_cons, Ne.symm here, false_or]
        split <;> rfl

theorem mem_changeChild {name : String} {f : Node H → Node H} {children : List (String × Node H)}
    {entry : String × Node H} (member : entry ∈ changeChild name f children) :
    entry ∈ children ∨ (entry.2 = f empty) ∨ ∃ n, (name, n) ∈ children ∧ entry.2 = f n := by
  induction children with
  | nil => simp_all [changeChild]
  | cons first rest ih =>
      obtain ⟨other, n⟩ := first
      rw [changeChild] at member
      by_cases here : other = name
      · subst here
        simp only [if_true] at member
        rcases List.mem_cons.mp member with rfl | inside
        · exact .inr (.inr ⟨n, List.mem_cons_self, rfl⟩)
        · exact .inl (List.mem_cons_of_mem _ inside)
      · simp only [here, if_false] at member
        rcases List.mem_cons.mp member with rfl | inside
        · exact .inl List.mem_cons_self
        · rcases ih inside with old | fresh | ⟨m, old, changed⟩
          · exact .inl (List.mem_cons_of_mem _ old)
          · exact .inr (.inl fresh)
          · exact .inr (.inr ⟨m, List.mem_cons_of_mem _ old, changed⟩)

theorem orderly_insert (c : Claim H) (p : CommandPath) {n : Node H} (orderly : n.Orderly) :
    (n.insert c p).Orderly := by
  induction p generalizing n with
  | nil =>
      cases orderly with
      | intro distinct below => exact .intro distinct below
  | cons name rest ih =>
      cases orderly with
      | intro distinct below =>
          refine .intro ?_ ?_
          · rw [names_changeChild]
            split
            · exact distinct
            · rename_i absent
              exact List.nodup_append.mpr ⟨distinct, by simp, by
                intro a member b single
                rw [List.mem_singleton] at single
                exact fun same => absent (single ▸ same ▸ member)⟩
          · intro entry member
            rcases mem_changeChild member with old | fresh | ⟨m, old, changed⟩
            · exact below entry old
            · exact fresh ▸ ih orderly_empty
            · exact changed ▸ ih (below (name, m) old)

theorem claimAt_absent {claim : Option (Claim H)} {children : List (String × Node H)} {name : String}
    (absent : name ∉ children.map (·.1)) (q : CommandPath) :
    (⟨claim, children⟩ : Node H).claimAt (name :: q) = none := by
  rw [claimAt_cons, child?, List.find?_eq_none.mpr]
  · rfl
  · intro entry member
    simp only [beq_iff_eq]
    exact fun same => absent (same ▸ List.mem_map_of_mem member)

theorem Orderly.head {claim claim' : Option (Claim H)} {name : String}
    {below rest : List (String × Node H)}
    (orderly : (⟨claim, (name, ⟨claim', below⟩) :: rest⟩ : Node H).Orderly) :
    (⟨claim', below⟩ : Node H).Orderly := by
  cases orderly with
  | intro distinct each => exact each (name, ⟨claim', below⟩) List.mem_cons_self

theorem Orderly.tail {claim : Option (Claim H)} {entry : String × Node H}
    {rest : List (String × Node H)} (orderly : (⟨claim, entry :: rest⟩ : Node H).Orderly) :
    entry.1 ∉ rest.map (·.1) ∧ (⟨claim, rest⟩ : Node H).Orderly := by
  cases orderly with
  | intro distinct each =>
      have apart := List.nodup_cons.mp distinct
      exact ⟨apart.1, .intro apart.2 fun other member => each other (List.mem_cons_of_mem _ member)⟩

theorem mem_names_iff {n : Node H} {name : String} :
    name ∈ n.children.map (·.1) ↔ (n.child? name).isSome := by
  simp [child?, List.mem_map]

theorem Orderly.get? {n m : Node H} (orderly : n.Orderly) {p : CommandPath}
    (reached : n.get? p = some m) : m.Orderly := by
  induction p generalizing n with
  | nil =>
      cases reached
      exact orderly
  | cons name rest ih =>
      obtain ⟨child, found, below⟩ := Option.bind_eq_some_iff.mp reached
      obtain ⟨entry, member, rfl⟩ := Option.map_eq_some_iff.mp found
      cases orderly with
      | intro distinct each => exact ih (each entry (List.mem_of_find?_eq_some member)) below

theorem Orderly.names_nodup {n : Node H} (orderly : n.Orderly) : (n.children.map (·.1)).Nodup := by
  cases orderly with
  | intro distinct each => exact distinct

/-- The listed paths below some children are those that have been claimed. -/
theorem mem_claimedPathsOf (path p : CommandPath) (children : List (String × Node H))
    {claim : Option (Claim H)} (orderly : (⟨claim, children⟩ : Node H).Orderly) :
    p ∈ claimedPathsOf path children ↔
      ∃ name q, p = path ++ name :: q ∧ ((⟨claim, children⟩ : Node H).claimAt (name :: q)).isSome := by
  induction children using commandsOf.induct generalizing path claim with
  | case1 => simp [claimedPathsOf, claimAt_cons, child?]
  | case2 name own below rest ihBelow ihRest =>
      have absent := orderly.tail.1
      rw [claimedPathsOf, List.mem_append, List.mem_append, ihBelow _ orderly.head,
        ihRest _ orderly.tail.2]
      constructor
      · rintro ((first | ⟨other, q, rfl, held⟩) | ⟨other, q, rfl, held⟩)
        · refine ⟨name, [], ?_, ?_⟩ <;> cases own <;> simp_all [CommandPath.below, claimAt_cons, child?_cons]
        · refine ⟨name, other :: q, by simp [CommandPath.below], ?_⟩
          simpa [claimAt_cons, child?_cons] using held
        · refine ⟨other, q, rfl, ?_⟩
          have different : other ≠ name := by
            rintro rfl
            rw [claimAt_absent absent] at held
            cases held
          simpa [claimAt_cons, child?_cons, different] using held
      · rintro ⟨other, q, rfl, held⟩
        rw [claimAt_cons, child?_cons] at held
        by_cases same : other = name
        · subst same
          rw [if_pos rfl, Option.bind_some] at held
          cases q with
          | nil =>
              rw [claimAt_nil] at held
              exact .inl (.inl (by simp [CommandPath.below, held]))
          | cons next q => exact .inl (.inr ⟨next, q, by simp [CommandPath.below], held⟩)
        · rw [if_neg same, ← claimAt_cons] at held
          exact .inr ⟨other, q, rfl, held⟩

/-- No path is listed twice. -/
theorem claimedPathsOf_nodup (path : CommandPath) (children : List (String × Node H))
    {claim : Option (Claim H)} (orderly : (⟨claim, children⟩ : Node H).Orderly) :
    (claimedPathsOf path children).Nodup := by
  induction children using commandsOf.induct generalizing path claim with
  | case1 => simp [claimedPathsOf]
  | case2 name own below rest ihBelow ihRest =>
      have absent := orderly.tail.1
      rw [claimedPathsOf, List.nodup_append, List.nodup_append]
      refine ⟨⟨?_, ihBelow _ orderly.head, ?_⟩, ihRest _ orderly.tail.2, ?_⟩
      · split <;> simp
      · intro p first q second same
        subst same
        obtain ⟨other, q, long, -⟩ := (mem_claimedPathsOf _ p below orderly.head).mp second
        cases own <;> simp_all
      · intro p first q second same
        subst same
        obtain ⟨other, q, split, held⟩ := (mem_claimedPathsOf path p rest orderly.tail.2).mp second
        have same : other = name := by
          rcases List.mem_append.mp first with one | deeper
          · cases own <;> simp_all [CommandPath.below]
          · obtain ⟨next, q', split', -⟩ := (mem_claimedPathsOf _ p below orderly.head).mp deeper
            simp_all [CommandPath.below]
        rw [same, claimAt_absent absent] at held
        cases held

theorem mem_claimedPaths {n : Node H} (orderly : n.Orderly) (path p : CommandPath) :
    p ∈ n.claimedPaths path ↔ ∃ name q, p = path ++ name :: q ∧ (n.claimAt (name :: q)).isSome := by
  obtain ⟨claim, children⟩ := n
  exact mem_claimedPathsOf path p children orderly

theorem claimedPaths_nodup {n : Node H} (orderly : n.Orderly) (path : CommandPath) :
    (n.claimedPaths path).Nodup := by
  obtain ⟨claim, children⟩ := n
  exact claimedPathsOf_nodup path children orderly

end Node

end ChainRelay
