import ChainRelay.Proofs.Command.Growth

/-! # The order of the listed paths

A tree lists a path before those below it, and what lies below one command in the order in which the
names there first came: with a fragment of their own, or as a group on the way to another.
-/

namespace ChainRelay

variable {H : Type u}

namespace Offer

/-- Some offer brings the first path into being before any offer brings the second. -/
def Earlier (xs : List (Offer H)) (p q : CommandPath) : Prop :=
  ∃ us x vs, xs = us ++ x :: vs ∧ p <+: x.path ∧ ∀ u ∈ us ++ [x], ¬q <+: u.path

/-- The depth-first order of paths, where siblings come in the order of their first offers. -/
inductive Precedes (xs : List (Offer H)) : CommandPath → CommandPath → Prop where
  | above {p : CommandPath} {name : String} {q : CommandPath} : Precedes xs p (p ++ name :: q)
  | beside {r p q : CommandPath} {a b : String} (earlier : Earlier xs (r ++ [a]) (r ++ [b])) :
      Precedes xs (r ++ a :: p) (r ++ b :: q)

theorem Earlier.later {xs : List (Offer H)} {p q : CommandPath} (earlier : Earlier xs p q)
    (ys : List (Offer H)) : Earlier (xs ++ ys) p q := by
  obtain ⟨us, x, vs, rfl, here, none⟩ := earlier
  exact ⟨us, x, vs ++ ys, by simp, here, none⟩

/-- A path that no offer has brought comes after one that some offer has. -/
theorem earlier_of_absent {xs : List (Offer H)} {p q : CommandPath} (present : ∃ x ∈ xs, p <+: x.path)
    (absent : ∀ x ∈ xs, ¬q <+: x.path) : Earlier xs p q := by
  obtain ⟨x, member, here⟩ := present
  obtain ⟨us, vs, rfl⟩ := List.append_of_mem member
  refine ⟨us, x, vs, rfl, here, ?_⟩
  intro u inside
  apply absent
  cases List.mem_append.mp inside with
  | inl before => exact List.mem_append_left _ before
  | inr last => exact List.mem_append_right _ (List.mem_singleton.mp last ▸ List.mem_cons_self)

end Offer

namespace Node

/-- The names below the command at a path, in their order. -/
def namesAt (n : Node H) (r : CommandPath) : List String :=
  ((n.get? r).map fun m => m.children.map (·.1)).getD []

theorem namesAt_cons (n : Node H) (name : String) (r : CommandPath) :
    n.namesAt (name :: r) = ((n.child? name).map (·.namesAt r)).getD [] := by
  rw [namesAt, get?_cons]
  cases n.child? name <;> rfl

theorem namesAt_empty (r : CommandPath) : (empty : Node H).namesAt r = [] := by
  cases r <;> rfl

theorem mem_namesAt_iff {n : Node H} {r : CommandPath} {name : String} :
    name ∈ n.namesAt r ↔ (n.get? (r ++ [name])).isSome := by
  rw [get?_append, namesAt]
  cases n.get? r with
  | none => simp
  | some m => simp only [Option.map_some, Option.getD_some, Option.bind_some, mem_names_iff, get?_singleton]

/-- On its way, insertion adds a name that is new at the end. -/
theorem namesAt_insert_on (c : Claim H) (name : String) (rest r : CommandPath) (n : Node H) :
    (n.insert c (r ++ name :: rest)).namesAt r =
      if name ∈ n.namesAt r then n.namesAt r else n.namesAt r ++ [name] := by
  induction r generalizing n with
  | nil => exact names_changeChild name (insert c rest) n.children
  | cons first r ih =>
      rw [List.cons_append, namesAt_cons, namesAt_cons, child?_insert_cons, if_pos rfl, Option.map_some,
        Option.getD_some, ih]
      cases n.child? first with
      | none => simp [namesAt_empty]
      | some child => simp

/-- Off its way, insertion changes no names. -/
theorem namesAt_insert_off (c : Claim H) {p r : CommandPath} (off : ∀ name rest, p ≠ r ++ name :: rest)
    (n : Node H) : (n.insert c p).namesAt r = n.namesAt r := by
  induction p generalizing n r with
  | nil => cases r <;> rfl
  | cons first p ih =>
      cases r with
      | nil => exact absurd rfl (off first p)
      | cons name r =>
          rw [namesAt_cons, namesAt_cons, child?_insert_cons]
          by_cases here : name = first
          · subst here
            have below : ∀ other rest, p ≠ r ++ other :: rest := by
              intro other rest same
              exact off other rest (congrArg (name :: ·) same)
            rw [if_pos rfl, Option.map_some, Option.getD_some, ih below]
            cases n.child? name with
            | none => simp [namesAt_empty]
            | some child => simp
          · rw [if_neg here]

/-- Everywhere from a path on, names stand in the order in which offers brought them. -/
def Timely (xs : List (Offer H)) (path : CommandPath) (n : Node H) : Prop :=
  ∀ r, (n.namesAt r).Pairwise fun a b => Offer.Earlier xs (path ++ r ++ [a]) (path ++ r ++ [b])

theorem Timely.head {xs : List (Offer H)} {path : CommandPath} {claim : Option (Claim H)} {name : String}
    {n : Node H} {rest : List (String × Node H)} (timely : Timely xs path ⟨claim, (name, n) :: rest⟩) :
    Timely xs (path.below name) n := by
  intro r
  have there := timely (name :: r)
  rw [namesAt_cons, child?_cons, if_pos rfl, Option.map_some, Option.getD_some] at there
  simpa [CommandPath.below] using there

theorem Timely.tail {xs : List (Offer H)} {path : CommandPath} {claim : Option (Claim H)} {name : String}
    {n : Node H} {rest : List (String × Node H)} (timely : Timely xs path ⟨claim, (name, n) :: rest⟩)
    (new : name ∉ rest.map (·.1)) : Timely xs path ⟨claim, rest⟩ := by
  intro r
  have there := timely r
  cases r with
  | nil => exact (List.pairwise_cons.mp there).2
  | cons other r =>
      rw [namesAt_cons, child?_cons] at there
      rw [namesAt_cons]
      by_cases same : other = name
      · subst same
        have absent : child? ⟨claim, rest⟩ other = none := by
          rw [← Option.not_isSome_iff_eq_none, ← mem_names_iff]
          exact new
        simp [absent]
      · simpa only [if_neg same] using there

theorem Timely.first {xs : List (Offer H)} {path : CommandPath} {claim : Option (Claim H)} {name : String}
    {n : Node H} {rest : List (String × Node H)} (timely : Timely xs path ⟨claim, (name, n) :: rest⟩)
    {other : String} (member : other ∈ rest.map (·.1)) :
    Offer.Earlier xs (path ++ [name]) (path ++ [other]) := by
  have there := (List.pairwise_cons.mp (timely [])).1 other member
  simpa using there

/-- The claimed paths below some children are listed depth first. -/
theorem claimedPathsOf_pairwise {xs : List (Offer H)} (path : CommandPath)
    (children : List (String × Node H)) {claim : Option (Claim H)}
    (orderly : (⟨claim, children⟩ : Node H).Orderly) (timely : Timely xs path ⟨claim, children⟩) :
    (claimedPathsOf path children).Pairwise (Offer.Precedes xs) := by
  induction children using commandsOf.induct generalizing path claim with
  | case1 => simp [claimedPathsOf]
  | case2 name own below rest ihBelow ihRest =>
      obtain ⟨absent, others⟩ := orderly.tail
      have inside : ∀ p ∈ claimedPathsOf (path.below name) below, ∃ other q,
          p = path ++ name :: other :: q := by
        intro p member
        obtain ⟨other, q, rfl, -⟩ := (mem_claimedPathsOf _ p below orderly.head).mp member
        exact ⟨other, q, by simp [CommandPath.below]⟩
      rw [claimedPathsOf, List.pairwise_append, List.pairwise_append]
      refine ⟨⟨?_, ihBelow _ orderly.head timely.head, ?_⟩, ihRest _ others (timely.tail absent), ?_⟩
      · split <;> simp
      · intro p here q member
        obtain ⟨other, q, rfl⟩ := inside q member
        have itself : p = path ++ [name] := by
          cases own <;> simp_all [CommandPath.below]
        have longer : path ++ name :: other :: q = p ++ other :: q := by
          rw [itself, List.append_assoc, List.singleton_append]
        rw [longer]
        exact .above
      · intro p first q second
        obtain ⟨q', rfl⟩ : ∃ q', p = path ++ name :: q' := by
          cases List.mem_append.mp first with
          | inl here =>
              refine ⟨[], ?_⟩
              cases own <;> simp_all [CommandPath.below]
          | inr deeper =>
              obtain ⟨other, q, same⟩ := inside p deeper
              exact ⟨other :: q, same⟩
        obtain ⟨other, q'', rfl, held⟩ := (mem_claimedPathsOf path q rest others).mp second
        by_cases named : other ∈ rest.map (·.1)
        · exact .beside (timely.first named)
        · rw [claimAt_absent named] at held
          cases held

theorem claimedPaths_pairwise {xs : List (Offer H)} {path : CommandPath} {n : Node H}
    (orderly : n.Orderly) (timely : n.Timely xs path) :
    (n.claimedPaths path).Pairwise (Offer.Precedes xs) := by
  obtain ⟨claim, children⟩ := n
  exact claimedPathsOf_pairwise path children orderly timely

end Node

namespace Tree

/-- One more offer leaves the names in their order and puts new ones last. -/
theorem Holds.timely_insert {t t' : Tree H} {xs : List (Offer H)} {x : Offer H} (holds : t.Holds xs)
    (timely : t.root.Timely xs []) (done : t.insert x.1 x.2 = .ok t') :
    t'.root.Timely (xs ++ [x]) [] := by
  obtain ⟨-, rfl⟩ := insert_eq_ok_iff.mp done
  intro r
  have before : (t.root.namesAt r).Pairwise fun a b =>
      Offer.Earlier (xs ++ [x]) ([] ++ r ++ [a]) ([] ++ r ++ [b]) :=
    (timely r).imp fun earlier => earlier.later [x]
  change ((t.root.insert x.claim x.path).namesAt r).Pairwise _
  by_cases way : ∃ name rest, x.path = r ++ name :: rest
  · obtain ⟨name, rest, path⟩ := way
    rw [path, Node.namesAt_insert_on]
    split
    · exact before
    · rename_i new
      refine List.pairwise_append.mpr ⟨before, List.pairwise_singleton _ _, ?_⟩
      intro a member b last
      obtain rfl := List.mem_singleton.mp last
      apply Offer.Earlier.later
      apply Offer.earlier_of_absent
      · have present := Node.mem_namesAt_iff.mp member
        simpa using (holds.commands (r ++ [a])).mp present
      · intro y inside leads
        apply new
        apply Node.mem_namesAt_iff.mpr
        apply (holds.commands (r ++ [b])).mpr
        exact .inr ⟨y, inside, by simpa using leads⟩
  · rw [Node.namesAt_insert_off]
    · exact before
    · intro name rest same
      exact way ⟨name, rest, same⟩

theorem Grown.timely {t : Tree H} {xs : List (Offer H)} (grown : t.Grown xs) : t.root.Timely xs [] := by
  induction grown with
  | empty name about version globals =>
      intro r
      change (Node.namesAt .empty r).Pairwise _
      simp [Node.namesAt_empty]
  | insert grown done ih => exact grown.holds.timely_insert ih done
  | sealed _ ih => exact ih

/-- The paths of a tree are listed depth first, siblings in the order in which they came. -/
theorem Grown.paths_pairwise {t : Tree H} {xs : List (Offer H)} (grown : t.Grown xs) :
    t.paths.Pairwise (Offer.Precedes xs) :=
  Node.claimedPaths_pairwise grown.holds.orderly grown.timely

end Tree

end ChainRelay
