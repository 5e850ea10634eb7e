import ChainRelay.Proofs.Command.Names

/-! # Values on a command line of names

A command line of names gives no values. What the command that is selected receives stands for arguments
on the way to it, by the environment or by a default.
-/

namespace ChainRelay

namespace Args

/-- The value is that of the argument in the environment, or else its default. -/
def Received.StandsFor (r : Received) (a : ArgSpec) : Prop :=
  a.id = r.id ∧ (r.source = .environment ∧ (standIn? a).isSome ∨ r.source = .default ∧ (defaultValue? a).isSome)

theorem complete_stands {l : Level} {hasChild : Bool} {m : Matches}
    (completed : complete l hasChild .start = .ok m) : ∀ r ∈ m, ∃ a ∈ l.args, r.StandsFor a := by
  obtain ⟨s, m', settled, environment, defaults, -⟩ := complete_eq_ok_iff.mp completed
  cases settled
  intro r member
  cases defaults.added r member with
  | inr new =>
      obtain ⟨source, a, inside, same, value⟩ := new
      exact ⟨a, inside, same, .inr ⟨source, value⟩⟩
  | inl old =>
      obtain ⟨source, a, inside, same, value⟩ := (environment.added r old).resolve_left (List.not_mem_nil)
      exact ⟨a, inside, same, .inl ⟨source, value⟩⟩

theorem strongest_eq (outer : Option Received) (inner : Received) :
    outer = some (strongest outer inner) ∨ strongest outer inner = inner := by
  unfold strongest
  split
  · split
    · exact .inl rfl
    · exact .inr rfl
  · exact .inr rfl

/-- What holds of every value of every level holds after they have shared some. -/
theorem forall_shareValues {P : Received → Prop} {ids : List String} {chain : Chain}
    (all : ∀ entry ∈ chain, ∀ r ∈ entry.2, P r) : ∀ entry ∈ shareValues ids chain, ∀ r ∈ entry.2, P r := by
  have put {m : Matches} {r : Received} (before : ∀ r ∈ m, P r) (new : P r) : ∀ r' ∈ m.put r, P r' := by
    intro r' member
    cases Matches.mem_put member with
    | inl same => exact same ▸ new
    | inr old => exact before r' old
  have shared : ∀ r ∈ sharedValues ids chain, P r := by
    apply List.foldlRecOn (motive := fun m : Matches => ∀ r ∈ m, P r) chain
    · intro r absent
      cases absent
    · intro known before entry member
      apply List.foldlRecOn (motive := fun m : Matches => ∀ r ∈ m, P r) ids _ before
      intro known before id _
      split
      · next r found =>
          apply put before
          cases strongest_eq (known.get? id) r with
          | inl outer => exact before _ (List.mem_of_find?_eq_some outer)
          | inr inner =>
              rw [inner]
              exact all entry member r (List.mem_of_find?_eq_some found)
      · exact before
  rw [shareValues, List.forall_mem_map]
  intro entry member
  apply List.foldlRecOn (motive := fun m : Matches => ∀ r ∈ m, P r) _ _ (all entry member)
  intro m before r inside
  exact put before (shared r inside)

end Args

open Args

variable {H : Type u}

/-- What names bring in stands for arguments on the way. -/
theorem Node.Shows.names_stand {n deepest : Node H} {l : Level} (shows : n.Shows l) {names : List String}
    (reached : n.get? names = some deepest) {P : ArgSpec → Prop} (help : P helpOption)
    (lent : ∀ a ∈ l.lent, P a)
    (claims : ∀ p c, p <+: names → n.claimAt p = some c → ∀ a ∈ c.args, P a) {chain : Chain}
    (read : readLevel l (names.map RawText.ofString) .start = .ok chain) :
    ∀ entry ∈ chain, ∀ r ∈ entry.2, ∃ a, P a ∧ r.StandsFor a := by
  induction names generalizing n l chain with
  | nil =>
      have here := shows.forall_args lent fun c => claims [] c List.nil_prefix
      obtain ⟨m, completed, done⟩ := bind_eq_ok_iff.mp read
      cases done
      rw [List.forall_mem_singleton]
      intro r member
      obtain ⟨a, inside, stands⟩ := complete_stands completed r member
      exact ⟨a, here a inside, stands⟩
  | cons name rest ih =>
      obtain ⟨child, found, below⟩ := Option.bind_eq_some_iff.mp reached
      have here := shows.forall_args lent fun c => claims [] c List.nil_prefix
      rw [List.map_cons, shows.readLevel_name found] at read
      obtain ⟨others, deeper, read⟩ := bind_eq_ok_iff.mp read
      obtain ⟨m, completed, done⟩ := bind_eq_ok_iff.mp read
      cases done
      have inside := ih (Node.shows_enter child name l) below (Node.forall_lent_enter help here)
        (Node.forall_claims_enter found claims) deeper
      refine List.forall_mem_cons.mpr ⟨?_, inside⟩
      intro r member
      obtain ⟨a, inside, stands⟩ := complete_stands completed r member
      exact ⟨a, here a inside, stands⟩

namespace Tree

/-- The values of a command that names select stand for arguments on the way to it. -/
theorem stands_of_names {t : Tree H} (unclaimed : t.root.claim = none) {p : CommandPath} {deepest : Node H}
    (reached : t.root.get? p = some deepest) {argv : List RawText} (names : argv.tail = p.map RawText.ofString)
    {P : ArgSpec → Prop} (help : P helpOption) (version : P versionOption) (options : ∀ a ∈ t.globals, P a)
    (claims : ∀ q c, q <+: p → t.claim? q = some c → ∀ a ∈ c.args, P a) {i : Invocation H}
    (routed : t.route argv = .ok (.invocation i)) : ∀ r ∈ i.matched, ∃ a, P a ∧ r.StandsFor a := by
  obtain ⟨chain, level, n, selected, last, -⟩ := (route_eq_invocation_iff unclaimed).mp routed
  obtain ⟨read, done, rfl⟩ := parse_eq_selected_iff.mp selected
  rw [names] at done
  have stands := (Node.shows_level t unclaimed (calledAs? argv)).names_stand reached help
    (forall_lent_level _ help version options) claims done
  exact forall_shareValues stands _ (List.mem_of_getLast? last)

end Tree

end ChainRelay
