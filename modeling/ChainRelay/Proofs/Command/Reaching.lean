import ChainRelay.Proofs.Command.Selection
import ChainRelay.Proofs.Command.Unset

/-! # Commands reached by their names

A command that can run is selected by the names on its path, whatever else its tree holds, if nothing on
the way asks for a value. Defaults are then the only values.
-/

namespace ChainRelay

open Args

variable {H : Type u}

namespace Tree

/-- The names of a fragment with a handler select that handler, under whatever name the program is called:
other commands, those above it that can run or take values, and the commands beside it do not get in the way. -/
theorem parse_names {t : Tree H} {xs : List (Offer H)} (grown : t.Grown xs) {x : Offer H} (member : x ∈ xs)
    {handler : H} (runs : x.2.handler = some handler) (options : ∀ g ∈ t.globals, g.Idle)
    (claims : ∀ y ∈ xs, y.path <+: x.path → ∀ a ∈ y.2.args, a.Idle) (program : RawText) :
    ∃ matched, (t.parse (program :: x.path.map RawText.ofString)).1 =
        .ok (.invocation { path := x.path, matched, handler }) ∧ ∀ r ∈ matched, r.source = .default := by
  have names : (program :: x.path.map RawText.ofString).tail = x.path.map RawText.ofString := rfl
  obtain ⟨matched, routed⟩ := grown.sealed.reaches member runs options claims names
  obtain ⟨n, reached⟩ := Option.isSome_iff_exists.mp
    ((grown.sealed.holds.commands x.path).mpr (.inr ⟨x, member, List.prefix_refl _⟩))
  have claimed : ∀ q c, q <+: x.path → t.sealed.claim? q = some c → ∀ a ∈ c.args, a.Idle := by
    intro q c above held
    obtain ⟨y, inside, rfl, rfl⟩ := (grown.sealed.holds.claims q c).mp held
    exact claims y inside above
  have stands := stands_of_names grown.sealed.unclaimed reached names idle_helpOption idle_versionOption options
    claimed routed
  refine ⟨matched, routed, ?_⟩
  intro r member
  obtain ⟨a, idle, -, value⟩ := stands r member
  cases value with
  | inl environment => simpa [idle.unset] using environment.2
  | inr default => exact default.1

/-- A command named like an option for all commands. -/
def helpOffer : Offer Unit :=
  ("node", { path := ["node", "help"], about := "", args := [{ id := "all", long := some "all", action := .flag }],
             handler := some () })

/-- Above it is a command that can run and takes a value if there is one, and beside it one that asks for
a value. -/
def helpOffers : List (Offer Unit) :=
  [("node", { path := ["node"], about := "", args := [{ id := "id", default := some "0" }], handler := some () }),
    helpOffer,
    ("node", { path := ["node", "send"], about := "", args := [{ id := "to", required := true }],
               handler := some () })]

theorem parse_names_help : ∃ t : Tree Unit, t.Grown helpOffers ∧
    ∃ matched, (t.parse (["relayer", "node", "help"].map RawText.ofString)).1 =
      .ok (.invocation { path := ["node", "help"], matched, handler := () }) := by
  have grown : Tree.Grown _ helpOffers := .insertEach (.empty "relayer" none none []) rfl
  have idle : ∀ y ∈ helpOffers, y.path <+: helpOffer.path → ∀ a ∈ y.2.args, a.Idle := by
    intro y member above a inside
    simp only [helpOffers, List.mem_cons, List.not_mem_nil, or_false] at member
    obtain rfl | rfl | rfl := member
    · rw [List.mem_singleton.mp inside]
      refine ⟨rfl, rfl, fun v stands => ?_⟩
      cases stands
      exact ⟨_, rfl⟩
    · rw [List.mem_singleton.mp inside]
      refine ⟨rfl, rfl, fun v stands => ?_⟩
      cases stands
      exact ⟨_, rfl⟩
    · exact absurd above (by decide)
  obtain ⟨matched, routed, -⟩ := parse_names grown (x := helpOffer) (by simp [helpOffers]) rfl
    (by simp [empty]) idle (RawText.ofString "relayer")
  exact ⟨_, grown, matched, routed⟩

end Tree

end ChainRelay
