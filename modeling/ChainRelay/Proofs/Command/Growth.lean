import ChainRelay.Proofs.Command.Insertion

/-! # Growing a command tree

A tree grows by fragments that it takes one after the other, each with its owner. What it has taken
decides which further fragments it takes, and every answer about claims and groups.
-/

namespace ChainRelay

variable {H : Type u}

/-- A fragment with the owner it is inserted for. -/
abbrev Offer (H : Type u) := String × Fragment H

/-- Two arguments have no id, long name or short name in common. -/
def Args.ArgSpec.Apart (a b : Args.ArgSpec) : Prop :=
  a.id ≠ b.id ∧ (∀ long, a.long = some long → b.long ≠ some long) ∧
    ∀ short, a.short = some short → b.short ≠ some short

/-- The path has names, each of which is some text without blanks and without a dash in front. -/
def CommandPath.Sound (p : CommandPath) : Prop :=
  p ≠ [] ∧ ∀ name ∈ p, name ≠ "" ∧ name.toList.head? ≠ some '-' ∧ ∀ c ∈ name.toList, isBlank c = false

theorem isWellFormed_iff_sound {p : CommandPath} : p.isWellFormed = true ↔ p.Sound := by
  simp [CommandPath.isWellFormed, CommandPath.Sound, isCommandName, and_assoc]

namespace Offer

/-- The path that an offer is for. -/
def path (x : Offer H) : CommandPath :=
  x.2.path

/-- The claim that an offer makes. -/
def claim (x : Offer H) : Claim H :=
  { owner := x.1, about := x.2.about, args := x.2.args, handler := x.2.handler }

/-- The path is sound, and no argument shadows one of the global options. -/
def Suits (globals : List Args.ArgSpec) (x : Offer H) : Prop :=
  x.path.Sound ∧ ∀ a ∈ x.2.args, ∀ g ∈ globals, a.Apart g

/-- The offers fit a tree that has taken others: each of them suits, and all paths are distinct. -/
def Fit (globals : List Args.ArgSpec) (xs ys : List (Offer H)) : Prop :=
  (∀ y ∈ ys, y.Suits globals) ∧ (ys.map Offer.path).Nodup ∧ ∀ y ∈ ys, y.path ∉ xs.map Offer.path

theorem fit_cons {globals : List Args.ArgSpec} {xs ys : List (Offer H)} {y : Offer H} :
    Fit globals xs (y :: ys) ↔
      (y.Suits globals ∧ y.path ∉ xs.map Offer.path) ∧ Fit globals (xs ++ [y]) ys := by
  simp only [Fit, List.forall_mem_cons, List.map_cons, List.nodup_cons, List.map_append, List.map_nil,
    List.mem_append, List.mem_singleton, not_or]
  constructor
  · rintro ⟨⟨suits, each⟩, ⟨apart, distinct⟩, new, others⟩
    exact ⟨⟨suits, new⟩, each, distinct, fun x member =>
      ⟨others x member, fun same => apart (same ▸ List.mem_map_of_mem member)⟩⟩
  · rintro ⟨⟨suits, new⟩, each, distinct, others⟩
    refine ⟨⟨suits, each⟩, ⟨?_, distinct⟩, new, fun x member => (others x member).1⟩
    intro inside
    obtain ⟨x, member, same⟩ := List.mem_map.mp inside
    exact (others x member).2 same

end Offer

namespace Tree

theorem sharesName_eq_false {a b : Args.ArgSpec} : sharesName a b = false ↔ a.Apart b := by
  have named {α : Type} [DecidableEq α] (x y : Option α) :
      (x.isSome && x == y) = false ↔ ∀ n, x = some n → y ≠ some n := by
    cases x with
    | none => simp
    | some a => simp [@eq_comm _ y]
  simp only [sharesName, Bool.or_eq_false_iff, named, beq_eq_false_iff_ne, and_assoc,
    Args.ArgSpec.Apart, ne_eq]

/-- Insert offers one after the other. -/
def insertEach (t : Tree H) : List (Offer H) → Except Error (Tree H)
  | [] => .ok t
  | x :: rest =>
    match t.insert x.1 x.2 with
    | .ok t => insertEach t rest
    | .error e => .error e

theorem shadowed?_eq_none {t : Tree H} {args : List Args.ArgSpec} :
    t.shadowed? args = none ↔ ∀ a ∈ args, ∀ g ∈ t.globals, a.Apart g := by
  simp only [shadowed?, List.find?_eq_none, List.any_eq_true, not_exists, not_and, Bool.not_eq_true,
    sharesName_eq_false]
  exact ⟨fun h a arg g glob => h g glob a arg, fun h g glob a arg => h a arg g glob⟩

theorem refusal?_eq_none {t : Tree H} {x : Offer H} :
    t.refusal? x.2 = none ↔ t.isSealed = false ∧ x.Suits t.globals ∧ t.contains x.path = false := by
  unfold refusal? Offer.Suits
  change (if t.isSealed then _ else if !x.path.isWellFormed then _
    else if t.contains x.path then _ else _) = none ↔ _
  rw [← isWellFormed_iff_sound, ← shadowed?_eq_none]
  cases t.isSealed <;> cases x.path.isWellFormed <;> cases t.contains x.path <;> simp

theorem insert_eq_ok_iff {t t' : Tree H} {x : Offer H} :
    t.insert x.1 x.2 = .ok t' ↔
      (t.isSealed = false ∧ x.Suits t.globals ∧ t.contains x.path = false) ∧
        t' = { t with root := t.root.insert x.claim x.path } := by
  rw [← refusal?_eq_none]
  unfold insert
  cases t.refusal? x.2 with
  | none => simp [Offer.claim, Offer.path, eq_comm]
  | some e => simp

/-- What a tree answers when it has taken some offers. -/
structure Holds (t : Tree H) (xs : List (Offer H)) : Prop where
  claims : ∀ p c, t.claim? p = some c ↔ ∃ x ∈ xs, x.path = p ∧ x.claim = c
  commands : ∀ p, (t.root.get? p).isSome ↔ p = [] ∨ ∃ x ∈ xs, p <+: x.path
  orderly : t.root.Orderly

theorem holds_empty (name : String) (about version : Option String) (globals : List Args.ArgSpec) :
    (empty name about version globals : Tree H).Holds [] where
  claims := by
    intro p c
    change Node.claimAt .empty p = some c ↔ _
    simp [Node.claimAt_empty]
  commands := by
    intro p
    cases p with
    | nil => simp
    | cons name rest => simp [empty, Node.get?_empty_cons]
  orderly := Node.orderly_empty

theorem Holds.contains_iff {t : Tree H} {xs : List (Offer H)} (holds : t.Holds xs) (p : CommandPath) :
    t.contains p = true ↔ p ∈ xs.map Offer.path := by
  rw [contains, Option.isSome_iff_exists]
  simp only [holds.claims, List.mem_map]
  constructor
  · rintro ⟨c, x, member, same, -⟩
    exact ⟨x, member, same⟩
  · rintro ⟨x, member, same⟩
    exact ⟨x.claim, x, member, same, rfl⟩

/-- One more offer. -/
theorem Holds.insert {t t' : Tree H} {xs : List (Offer H)} {x : Offer H} (holds : t.Holds xs)
    (done : t.insert x.1 x.2 = .ok t') : t'.Holds (xs ++ [x]) := by
  obtain ⟨⟨-, -, new⟩, rfl⟩ := insert_eq_ok_iff.mp done
  have absent : x.path ∉ xs.map Offer.path := by
    rw [← holds.contains_iff, new]
    simp
  constructor
  · intro p c
    change Node.claimAt (t.root.insert x.claim x.path) p = some c ↔ _
    rw [Node.claimAt_insert]
    by_cases here : p = x.path
    · subst here
      simp only [if_true, Option.some.injEq, List.mem_append, List.mem_singleton]
      constructor
      · intro same
        exact ⟨x, .inr rfl, rfl, same⟩
      · rintro ⟨y, old | rfl, same, claim⟩
        · exact absurd (same ▸ List.mem_map_of_mem old) absent
        · exact claim
    · rw [if_neg here]
      refine (holds.claims p c).trans ?_
      constructor
      · rintro ⟨y, member, same, claim⟩
        exact ⟨y, List.mem_append_left _ member, same, claim⟩
      · rintro ⟨y, member, same, claim⟩
        rcases List.mem_append.mp member with old | last
        · exact ⟨y, old, same, claim⟩
        · rw [List.mem_singleton] at last
          exact absurd (last ▸ same).symm here
  · intro p
    change ((t.root.insert x.claim x.path).get? p).isSome ↔ _
    rw [Node.isSome_get?_insert, holds.commands]
    simp only [List.mem_append, List.mem_singleton, or_and_right, exists_or, exists_eq_left, or_assoc]
  · exact Node.orderly_insert _ _ holds.orderly

/-- A closed tree gives the same answers. -/
theorem Holds.sealed {t : Tree H} {xs : List (Offer H)} (holds : t.Holds xs) : t.sealed.Holds xs :=
  ⟨holds.claims, holds.commands, holds.orderly⟩

/-- All offers are taken exactly if they fit. -/
theorem insertEach_ok_iff {t : Tree H} {xs ys : List (Offer H)} (holds : t.Holds xs)
    (building : t.isSealed = false) :
    (∃ t', t.insertEach ys = .ok t') ↔ Offer.Fit t.globals xs ys := by
  induction ys generalizing t xs with
  | nil => simp [insertEach, Offer.Fit]
  | cons y rest ih =>
      rw [Offer.fit_cons]
      have fresh : t.contains y.path = false ↔ y.path ∉ xs.map Offer.path := by
        rw [← holds.contains_iff, Bool.not_eq_true]
      have taken : (∃ t', t.insert y.1 y.2 = .ok t') ↔
          y.Suits t.globals ∧ y.path ∉ xs.map Offer.path := by
        simp [insert_eq_ok_iff, building, fresh]
      cases done : t.insert y.1 y.2 with
      | error e =>
          rw [done] at taken
          have refused : ¬(y.Suits t.globals ∧ y.path ∉ xs.map Offer.path) := by
            rw [← taken]
            simp
          simp only [insertEach, done, refused, false_and, reduceCtorEq, exists_false]
      | ok t' =>
          rw [done] at taken
          have grown := holds.insert done
          obtain ⟨-, rfl⟩ := insert_eq_ok_iff.mp done
          simp only [insertEach, done, ih grown building, ← taken]
          simp

/-- What stays the same while a tree grows, and what it holds in the end. -/
theorem Holds.insertEach {t t' : Tree H} {xs ys : List (Offer H)} (holds : t.Holds xs)
    (done : t.insertEach ys = .ok t') :
    t'.Holds (xs ++ ys) ∧ ∃ root, t' = { t with root } := by
  induction ys generalizing t xs with
  | nil =>
      cases done
      exact ⟨by simpa using holds, _, rfl⟩
  | cons y rest ih =>
      cases first : t.insert y.1 y.2 with
      | error e => simp [Tree.insertEach, first] at done
      | ok middle =>
          simp only [Tree.insertEach, first] at done
          obtain ⟨held, root, rfl⟩ := ih (holds.insert first) done
          obtain ⟨-, rfl⟩ := insert_eq_ok_iff.mp first
          exact ⟨by simpa using held, root, rfl⟩

/-- Nothing is claimed for the program itself. -/
theorem Holds.unclaimed {t : Tree H} {xs : List (Offer H)} (holds : t.Holds xs)
    (named : ∀ x ∈ xs, x.path ≠ []) : t.root.claim = none := by
  refine Option.eq_none_iff_forall_ne_some.mpr ?_
  intro c held
  obtain ⟨x, member, here, -⟩ := (holds.claims [] c).mp held
  exact named x member here

/-- The trees that come about by insertions, perhaps closed in the end, with the offers they took. -/
inductive Grown : Tree H → List (Offer H) → Prop where
  | empty (name : String) (about version : Option String) (globals : List Args.ArgSpec) :
      Grown (.empty name about version globals) []
  | insert {t t' : Tree H} {xs : List (Offer H)} {x : Offer H} (grown : Grown t xs)
      (done : t.insert x.1 x.2 = .ok t') : Grown t' (xs ++ [x])
  | sealed {t : Tree H} {xs : List (Offer H)} (grown : Grown t xs) : Grown t.sealed xs

theorem Grown.insertEach {t t' : Tree H} {xs ys : List (Offer H)} (grown : t.Grown xs)
    (done : t.insertEach ys = .ok t') : t'.Grown (xs ++ ys) := by
  induction ys generalizing t xs with
  | nil =>
      cases done
      simpa using grown
  | cons y rest ih =>
      cases first : t.insert y.1 y.2 with
      | error e => simp [Tree.insertEach, first] at done
      | ok middle =>
          simp only [Tree.insertEach, first] at done
          simpa using ih (grown.insert first) done

theorem Grown.holds {t : Tree H} {xs : List (Offer H)} (grown : t.Grown xs) : t.Holds xs := by
  induction grown with
  | empty name about version globals => exact holds_empty name about version globals
  | insert _ done ih => exact ih.insert done
  | sealed _ ih => exact ih.sealed

theorem Grown.suits {t : Tree H} {xs : List (Offer H)} (grown : t.Grown xs) :
    ∀ x ∈ xs, x.Suits t.globals := by
  induction grown with
  | empty => simp
  | insert _ done ih =>
      obtain ⟨⟨-, suits, -⟩, rfl⟩ := insert_eq_ok_iff.mp done
      rw [List.forall_mem_append, List.forall_mem_singleton]
      exact ⟨ih, suits⟩
  | sealed _ ih => exact ih

/-- Claimed arguments differ from the options of the tree. -/
theorem Grown.apart_of_claim {t : Tree H} {xs : List (Offer H)} (grown : t.Grown xs) {p : CommandPath} {c : Claim H}
    (claimed : t.root.claimAt p = some c) : ∀ a ∈ c.args, ∀ g ∈ t.globals, a.Apart g := by
  obtain ⟨x, member, -, rfl⟩ := (grown.holds.claims p c).mp claimed
  exact (grown.suits x member).2

theorem Grown.distinct {t : Tree H} {xs : List (Offer H)} (grown : t.Grown xs) :
    (xs.map Offer.path).Nodup := by
  induction grown with
  | empty => simp
  | @insert t t' xs x grown done ih =>
      obtain ⟨⟨-, -, new⟩, -⟩ := insert_eq_ok_iff.mp done
      have absent : x.path ∉ xs.map Offer.path := by
        rw [← grown.holds.contains_iff, new]
        simp
      rw [List.map_append, List.nodup_append]
      refine ⟨ih, by simp, ?_⟩
      intro p member q single same
      simp only [List.map_cons, List.map_nil, List.mem_singleton] at single
      exact absent (single ▸ same ▸ member)
  | sealed _ ih => exact ih

theorem Grown.unclaimed {t : Tree H} {xs : List (Offer H)} (grown : t.Grown xs) : t.root.claim = none :=
  grown.holds.unclaimed fun x member => (grown.suits x member).1.1

/-- The listed paths are those of the offers, each once. -/
theorem Holds.paths_perm {t : Tree H} {xs : List (Offer H)} (holds : t.Holds xs)
    (named : ∀ x ∈ xs, x.path ≠ []) (distinct : (xs.map Offer.path).Nodup) :
    t.paths.Perm (xs.map Offer.path) := by
  rw [paths, List.perm_ext_iff_of_nodup (Node.claimedPaths_nodup holds.orderly []) distinct]
  intro p
  rw [Node.mem_claimedPaths holds.orderly, ← holds.contains_iff]
  constructor
  · rintro ⟨name, q, rfl, held⟩
    exact held
  · intro held
    cases p with
    | nil =>
        obtain ⟨x, member, same⟩ := List.mem_map.mp ((holds.contains_iff []).mp held)
        exact absurd same (named x member)
    | cons name q => exact ⟨name, q, rfl, held⟩

end Tree

end ChainRelay
