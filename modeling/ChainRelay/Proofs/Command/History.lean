import ChainRelay.Command.Routing
import ChainRelay.Proofs.Command.Preorder

/-! # The history of a command tree

Fragments are offered to a tree, it is closed, and it reads command lines, in any order and as often as
one likes. All that it answers about its commands follows from the offers that it took.
-/

namespace ChainRelay

variable {H : Type u}

/-- What can be done with a command tree. -/
inductive TreeCall (H : Type u) where
  | insert (x : Offer H)
  | close
  | parse (argv : List RawText)

/-- After the call the tree takes no more fragments. -/
def TreeCall.closes : TreeCall H → Bool
  | .insert _ => false
  | .close | .parse _ => true

/-- Why a tree that has taken some offers refuses one more. Of several reasons the first one counts. -/
inductive Offer.Refused (globals : List Args.ArgSpec) (closed : Bool) (xs : List (Offer H)) (x : Offer H) :
    Error → Prop where
  | late (after : closed = true) : Refused globals closed xs x (.sealed x.path)
  | malformed (opened : closed = false) (unsound : ¬x.path.Sound) :
      Refused globals closed xs x (.invalidPath x.path)
  | claimed (opened : closed = false) (sound : x.path.Sound) (before : x.path ∈ xs.map Offer.path) :
      Refused globals closed xs x (.collision (.command x.path))
  | shadows (opened : closed = false) (sound : x.path.Sound) (new : x.path ∉ xs.map Offer.path)
      {passed rest : List Args.ArgSpec} {g : Args.ArgSpec} (globalsAre : globals = passed ++ g :: rest)
      (clear : ∀ b ∈ passed, ∀ a ∈ x.2.args, a.Apart b) (shadow : ∃ a ∈ x.2.args, ¬a.Apart g) :
      Refused globals closed xs x (.collision (.globalArg x.path g.id))

namespace Tree

/-- The tree after a call. A fragment that is refused leaves it as it is. -/
def call (t : Tree H) : TreeCall H → Tree H
  | .insert x =>
    match t.insert x.1 x.2 with
    | .ok t' => t'
    | .error _ => t
  | .close => t.sealed
  | .parse argv => (t.parse argv).2

/-- The tree after some calls, one after the other. -/
def after (t : Tree H) (calls : List (TreeCall H)) : Tree H :=
  calls.foldl call t

/-- The offers among the calls that the tree takes. -/
def taken (t : Tree H) : List (TreeCall H) → List (Offer H)
  | [] => []
  | .insert x :: rest =>
    match t.insert x.1 x.2 with
    | .ok t' => x :: taken t' rest
    | .error _ => taken t rest
  | c :: rest => taken (t.call c) rest

theorem insert_eq_error_iff {t : Tree H} {x : Offer H} {e : Error} :
    t.insert x.1 x.2 = .error e ↔ t.refusal? x.2 = some e := by
  unfold insert
  cases t.refusal? x.2 <;> simp

theorem shadowed?_eq_some_iff {t : Tree H} {args : List Args.ArgSpec} {g : Args.ArgSpec} :
    t.shadowed? args = some g ↔ (∃ a ∈ args, ¬a.Apart g) ∧
      ∃ passed rest, t.globals = passed ++ g :: rest ∧ ∀ b ∈ passed, ∀ a ∈ args, a.Apart b := by
  have clear (b : Args.ArgSpec) : args.any (sharesName · b) = false ↔ ∀ a ∈ args, a.Apart b := by
    simp only [List.any_eq_false, Bool.not_eq_true, sharesName_eq_false]
  have shadow : args.any (sharesName · g) = true ↔ ∃ a ∈ args, ¬a.Apart g := by
    rw [← Bool.not_eq_false, clear]
    simp only [Classical.not_forall, exists_prop]
  simp only [shadowed?, List.find?_eq_some_iff_append, Bool.not_eq_true', clear, shadow]

/-- A tree refuses an offer for the first reason that applies. -/
theorem Holds.insert_eq_error_iff {t : Tree H} {xs : List (Offer H)} (holds : t.Holds xs) {x : Offer H}
    {e : Error} : t.insert x.1 x.2 = .error e ↔ x.Refused t.globals t.isSealed xs e := by
  rw [Tree.insert_eq_error_iff, refusal?]
  change (if t.isSealed then some (Error.sealed x.path) else if !x.path.isWellFormed then some (.invalidPath x.path)
    else if t.contains x.path then some (.collision (.command x.path))
    else (t.shadowed? x.2.args).map fun g => .collision (.globalArg x.path g.id)) = some e ↔ _
  have sound : x.path.isWellFormed = true ↔ x.path.Sound := isWellFormed_iff_sound
  have claimed := holds.contains_iff x.path
  constructor
  · intro refused
    cases closed : t.isSealed with
    | true =>
        simp only [closed, if_true, Option.some.injEq] at refused
        exact refused ▸ .late rfl
    | false =>
        simp only [closed, Bool.false_eq_true, if_false] at refused
        cases formed : x.path.isWellFormed with
        | false =>
            simp only [formed, Bool.not_false, if_true, Option.some.injEq] at refused
            exact refused ▸ .malformed rfl (by simp [← sound, formed])
        | true =>
            simp only [formed, Bool.not_true, Bool.false_eq_true, if_false] at refused
            cases held : t.contains x.path with
            | true =>
                simp only [held, if_true, Option.some.injEq] at refused
                exact refused ▸ .claimed rfl (sound.mp formed) (claimed.mp held)
            | false =>
                simp only [held, Bool.false_eq_true, if_false, Option.map_eq_some_iff] at refused
                obtain ⟨g, found, rfl⟩ := refused
                obtain ⟨shadow, passed, rest, globals, clear⟩ := shadowed?_eq_some_iff.mp found
                exact .shadows rfl (sound.mp formed) (by simp [← claimed, held]) globals clear shadow
  · intro refused
    cases refused with
    | late after => simp [after]
    | malformed opened unsound =>
        have formed : x.path.isWellFormed = false := by simpa [← sound] using unsound
        simp [opened, formed]
    | claimed opened formed before => simp [opened, sound.mpr formed, claimed.mpr before]
    | shadows opened formed new globals clear shadow =>
        have absent : t.contains x.path = false := by simpa [← claimed] using new
        have found := shadowed?_eq_some_iff.mpr ⟨shadow, _, _, globals, clear⟩
        simp [opened, sound.mpr formed, absent, found]

section Calls

variable {t : Tree H} {xs : List (Offer H)}

theorem Grown.call (grown : t.Grown xs) (c : TreeCall H) :
    (t.call c).Grown (xs ++ t.taken [c]) ∧ (t.call c).isSealed = (t.isSealed || c.closes) ∧
      (t.call c).globals = t.globals := by
  cases c with
  | insert x =>
      simp only [Tree.call, taken, TreeCall.closes, Bool.or_false]
      cases done : t.insert x.1 x.2 with
      | error e => exact ⟨by simpa using grown, rfl, rfl⟩
      | ok t' =>
          obtain ⟨-, rfl⟩ := insert_eq_ok_iff.mp done
          exact ⟨grown.insert done, rfl, rfl⟩
  | close | parse argv =>
      simp only [taken, List.append_nil, TreeCall.closes, Bool.or_true]
      exact ⟨grown.sealed, rfl, rfl⟩

theorem taken_cons (t : Tree H) (c : TreeCall H) (rest : List (TreeCall H)) :
    t.taken (c :: rest) = t.taken [c] ++ (t.call c).taken rest := by
  cases c with
  | insert x =>
      simp only [taken, call]
      cases t.insert x.1 x.2 <;> rfl
  | close | parse argv => rfl

/-- A tree grows by the offers that it takes, and is closed by the first call that closes it. -/
theorem Grown.after (grown : t.Grown xs) (calls : List (TreeCall H)) :
    (t.after calls).Grown (xs ++ t.taken calls) ∧
      (t.after calls).isSealed = (t.isSealed || calls.any TreeCall.closes) ∧
      (t.after calls).globals = t.globals := by
  induction calls generalizing t xs with
  | nil => simpa [Tree.after, taken] using grown
  | cons c rest ih =>
      obtain ⟨first, closed, globals⟩ := grown.call c
      obtain ⟨all, closedAll, globalsAll⟩ := ih first
      rw [taken_cons, ← List.append_assoc, List.any_cons, ← Bool.or_assoc, ← closed, ← globals]
      exact ⟨all, closedAll, globalsAll⟩

end Calls

/-- What a tree with some global options answers, once it has taken some offers. -/
structure Accounts (t : Tree H) (globals : List Args.ArgSpec) (closed : Bool) (xs : List (Offer H)) : Prop where
  claimed : ∀ p, t.contains p = true ↔ ∃ x ∈ xs, x.path = p
  owned : ∀ p owner, t.owner? p = some owner ↔ ∃ x ∈ xs, x.path = p ∧ x.1 = owner
  listed : t.paths.Perm (xs.map Offer.path)
  distinct : t.paths.Nodup
  depthFirst : t.paths.Pairwise (Offer.Precedes xs)
  apart : ∀ x ∈ xs, ∀ a ∈ x.2.args, ∀ g ∈ globals, a.Apart g
  /-- A group that only leads to other commands exists without a claim, and can be claimed once. -/
  groups : ∀ x ∈ xs, ∀ p, p ≠ [] → p <+: x.path → p ∉ xs.map Offer.path →
    (t.root.get? p).isSome ∧ t.contains p = false ∧
      ∀ y : Offer H, y.path = p → closed = false → (∀ a ∈ y.2.args, ∀ g ∈ globals, a.Apart g) →
        ∃ t', t.insert y.1 y.2 = .ok t' ∧ t'.contains p = true ∧
          ∀ z : Offer H, z.path = p → t'.insert z.1 z.2 = .error (.collision (.command p))
  refused : ∀ (x : Offer H) e, t.insert x.1 x.2 = .error e ↔ x.Refused globals closed xs e
  unchanged : ∀ (x : Offer H) e, t.insert x.1 x.2 = .error e → t.call (.insert x) = t

theorem Holds.owned {t : Tree H} {xs : List (Offer H)} (holds : t.Holds xs) (p : CommandPath) (owner : String) :
    t.owner? p = some owner ↔ ∃ x ∈ xs, x.path = p ∧ x.1 = owner := by
  simp only [owner?, Option.map_eq_some_iff, holds.claims]
  constructor
  · rintro ⟨c, ⟨x, member, path, rfl⟩, same⟩
    exact ⟨x, member, path, same⟩
  · rintro ⟨x, member, path, same⟩
    exact ⟨x.claim, ⟨x, member, path, rfl⟩, same⟩

theorem CommandPath.Sound.above {p q : CommandPath} (sound : q.Sound) (above : p <+: q) (named : p ≠ []) :
    p.Sound :=
  ⟨named, fun name member => sound.2 name (above.subset member)⟩

/-- A group without a claim can be claimed once. -/
theorem Grown.claimable {t : Tree H} {xs : List (Offer H)} (grown : t.Grown xs) (building : t.isSealed = false)
    {y : Offer H} (suits : y.Suits t.globals) (new : y.path ∉ xs.map Offer.path) :
    ∃ t', t.insert y.1 y.2 = .ok t' ∧ t'.contains y.path = true ∧
      ∀ z : Offer H, z.path = y.path → t'.insert z.1 z.2 = .error (.collision (.command y.path)) := by
  have absent : t.contains y.path = false := by simpa [← grown.holds.contains_iff] using new
  have done : t.insert y.1 y.2 = .ok { t with root := t.root.insert y.claim y.path } :=
    insert_eq_ok_iff.mpr ⟨⟨building, suits, absent⟩, rfl⟩
  have holds := grown.holds.insert done
  have member : y.path ∈ (xs ++ [y]).map Offer.path := by simp
  refine ⟨_, done, (holds.contains_iff y.path).mpr member, ?_⟩
  intro z same
  apply holds.insert_eq_error_iff.mpr
  rw [← same]
  exact .claimed building (same ▸ suits.1) (same ▸ member)

theorem Grown.accounts {t : Tree H} {xs : List (Offer H)} (grown : t.Grown xs) :
    t.Accounts t.globals t.isSealed xs where
  claimed := by
    intro p
    rw [grown.holds.contains_iff, List.mem_map]
  owned := grown.holds.owned
  listed := grown.holds.paths_perm (fun x member => (grown.suits x member).1.1) grown.distinct
  distinct := Node.claimedPaths_nodup grown.holds.orderly []
  depthFirst := grown.paths_pairwise
  apart := by
    intro x member
    exact (grown.suits x member).2
  groups := by
    intro x member p named leads new
    refine ⟨(grown.holds.commands p).mpr (.inr ⟨x, member, leads⟩), ?_, ?_⟩
    · simpa [← grown.holds.contains_iff] using new
    · intro y path building apart
      subst path
      have sound := CommandPath.Sound.above (grown.suits x member).1 leads named
      exact grown.claimable building ⟨sound, apart⟩ new
  refused := fun x e => grown.holds.insert_eq_error_iff
  unchanged := by
    intro x e refused
    rw [Tree.call, refused]

/-- After any calls, a tree that began without commands answers by the offers that it took. It is closed
once a call has closed it, and then refuses all offers. -/
theorem after_accounts (name : String) (about version : Option String) (globals : List Args.ArgSpec)
    (calls : List (TreeCall H)) :
    ((empty name about version globals).after calls).Accounts globals (calls.any TreeCall.closes)
      ((empty name about version globals).taken calls) := by
  obtain ⟨grown, closed, same⟩ := (Grown.empty name about version globals).after calls
  have accounts := grown.accounts
  rw [closed, same, List.nil_append] at accounts
  simpa [empty] using accounts

end Tree

end ChainRelay
