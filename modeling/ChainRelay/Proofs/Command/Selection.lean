import ChainRelay.App
import ChainRelay.Proofs.Command.Names
import ChainRelay.Proofs.Effects.Run

/-! # Selecting a command

A tree that came about by insertions selects only commands that some fragment claims with a handler,
and running a selection is running that handler. Everything else is help or a refusal, which points
to a command of the tree.
-/

namespace ChainRelay

open Args

section Tree

variable {H : Type u}

/-- The walk down from a command ends at a command below it, by names that stand among the tokens. -/
theorem walkDown_reached (globals : List ArgSpec) (n : Node H) (path : CommandPath) (skip : Bool)
    (tokens : List RawText) :
    ∃ names, (walkDown globals n path skip tokens).1 = path ++ names ∧
      n.get? names = some (walkDown globals n path skip tokens).2 ∧
      (names.map RawText.ofString).Sublist tokens := by
  induction tokens generalizing n path skip with
  | nil => exact ⟨[], by simp [walkDown]⟩
  | cons t rest ih =>
      have passed (skip : Bool) : ∃ names, (walkDown globals n path skip rest).1 = path ++ names ∧
          n.get? names = some (walkDown globals n path skip rest).2 ∧
          (names.map RawText.ofString).Sublist (t :: rest) := by
        obtain ⟨names, path, reached, inside⟩ := ih n path skip
        exact ⟨names, path, reached, inside.cons t⟩
      cases skip with
      | true => simpa only [walkDown] using passed false
      | false =>
          simp only [walkDown]
          split
          · exact ⟨[], by simp⟩
          · rename_i token text
            split
            · exact passed _
            · split
              · exact ⟨[], by simp⟩
              · rename_i child found
                obtain ⟨names, below, reached, inside⟩ := ih child (path.below token) false
                refine ⟨token :: names, by simpa [CommandPath.below] using below, ?_, ?_⟩
                · rw [Node.get?_cons, found]
                  exact reached
                · rw [RawText.toString?_eq_some_iff.mp text]
                  exact inside.cons_cons _

/-- A refusal of a command line points to a command of the tree that took some offers. -/
structure UsageError.Guides (u : UsageError) (xs : List (Offer H)) (argv : List RawText) : Prop where
  /-- The nearest command exists. -/
  reached : u.nearest = [] ∨ ∃ x ∈ xs, u.nearest <+: x.path
  /-- Its names stand in order among the tokens after the name of the program. -/
  named : (u.nearest.map RawText.ofString).Sublist argv.tail
  /-- The suggestions are the names of the commands below it. -/
  suggestions : ∀ name, name ∈ u.suggestions ↔ ∃ x ∈ xs, u.nearest ++ [name] <+: x.path
  nodup : u.suggestions.Nodup

theorem Tree.Holds.guides {t : Tree H} {xs : List (Offer H)} (holds : t.Holds xs) (argv : List RawText)
    (message : String) : (t.usageError argv.tail message).Guides xs argv := by
  obtain ⟨names, path, reached, inside⟩ := walkDown_reached t.globals t.root [] false argv.tail
  have nearest : (t.usageError argv.tail message).nearest = names := path
  refine ⟨?_, ?_, ?_, (holds.orderly.get? reached).names_nodup⟩
  · rw [nearest, ← holds.commands, reached]
    rfl
  · exact nearest ▸ inside
  · intro name
    have below : t.root.get? (names ++ [name]) =
        (walkDown t.globals t.root [] false argv.tail).2.child? name := by
      rw [Node.get?_append, reached]
      exact Node.get?_singleton _ _
    have child := holds.commands (names ++ [name])
    rw [below, ← Node.mem_names_iff] at child
    rw [nearest]
    exact child.trans (by simp)

namespace Tree

/-- A command line selects a command that the tree took, along the commands that were entered. -/
structure Selects (t : Tree H) (xs : List (Offer H)) (argv : List RawText) (i : Invocation H) : Prop where
  /-- The path is claimed by a fragment with this handler. -/
  claimed : ∃ x ∈ xs, x.path = i.path ∧ x.2.handler = some i.handler
  /-- The path is that of the innermost command that was entered, with its values. -/
  entered : ∃ chain level, t.interface.parse (calledAs? argv) argv.tail = .selected chain ∧
    chain.tail.map (·.1.name?) = i.path.map some ∧
    chain.getLast? = some (level, i.matched) ∧ level.path = i.path

theorem Holds.handler?_eq_some_iff {t : Tree H} {xs : List (Offer H)} (holds : t.Holds xs)
    {p : CommandPath} {n : Node H} (reached : t.root.get? p = some n) {handler : H} :
    n.handler? = some handler ↔ ∃ x ∈ xs, x.path = p ∧ x.2.handler = some handler := by
  have claims (c : Claim H) : n.claim = some c ↔ ∃ x ∈ xs, x.path = p ∧ x.claim = c := by
    rw [← holds.claims, claim?, reached, Option.bind_some]
  simp only [Node.handler?, Option.bind_eq_some_iff, claims]
  constructor
  · rintro ⟨c, ⟨x, member, path, rfl⟩, runs⟩
    exact ⟨x, member, path, runs⟩
  · rintro ⟨x, member, path, runs⟩
    exact ⟨x.claim, ⟨x, member, path, rfl⟩, runs⟩

theorem usageError_of_route {t : Tree H} {argv : List RawText} {u : UsageError}
    (refused : t.route argv = .error u) : (∃ f : Failure, u = t.usageError argv.tail f.message) ∨
      u = t.usageError argv.tail "error: a subcommand is required" := by
  unfold route at refused
  dsimp only at refused
  split at refused
  · cases refused
  · cases refused
  · exact .inl ⟨_, (Except.error.inj refused).symm⟩
  · split at refused
    · exact .inr (Except.error.inj refused).symm
    · split at refused
      · cases refused
      · exact .inr (Except.error.inj refused).symm

theorem eq_usageError_of_route {t : Tree H} {argv : List RawText} {u : UsageError}
    (refused : t.route argv = .error u) : ∃ message, u = t.usageError argv.tail message := by
  rcases usageError_of_route refused with ⟨f, same⟩ | same
  · exact ⟨_, same⟩
  · exact ⟨_, same⟩

section Grown

variable {t : Tree H} {xs : List (Offer H)} (grown : t.Grown xs) {argv : List RawText}
include grown

theorem Grown.selects {i : Invocation H} (routed : t.route argv = .ok (.invocation i)) :
    t.Selects xs argv i := by
  obtain ⟨chain, level, n, selected, last, path, reached, runs⟩ :=
    (route_eq_invocation_iff grown.unclaimed).mp routed
  obtain ⟨level', values, n', last', -, named, -⟩ := route_of_selected grown.unclaimed selected
  rw [last, Option.some.injEq, Prod.mk.injEq] at last'
  obtain ⟨rfl, rfl⟩ := last'
  exact ⟨(grown.holds.handler?_eq_some_iff reached).mp runs, chain, level, selected, path ▸ named, last, path⟩

theorem Grown.guides {u : UsageError} (refused : t.route argv = .error u) : u.Guides xs argv := by
  obtain ⟨message, rfl⟩ := eq_usageError_of_route refused
  exact grown.holds.guides argv message

/-- The names of a group without a handler, or none at all, are refused. -/
theorem Grown.group_refused {p : CommandPath} (exists_group : p = [] ∨ ∃ x ∈ xs, p <+: x.path)
    (group : ∀ x ∈ xs, x.path = p → x.2.handler = none) (names : argv.tail = p.map RawText.ofString) :
    ∃ u, t.route argv = .error u := by
  obtain ⟨n, reached⟩ := Option.isSome_iff_exists.mp ((grown.holds.commands p).mpr exists_group)
  refine route_names_error grown.unclaimed reached ?_ names
  refine Option.eq_none_iff_forall_ne_some.mpr fun handler runs => ?_
  obtain ⟨x, member, path, has⟩ := (grown.holds.handler?_eq_some_iff reached).mp runs
  rw [group x member path] at has
  cases has

/-- The names of a command with a handler select it, where nothing on the way asks for a value. -/
theorem Grown.reaches {x : Offer H} (member : x ∈ xs) {handler : H} (runs : x.2.handler = some handler)
    (options : ∀ g ∈ t.globals, g.Idle) (claims : ∀ y ∈ xs, y.path <+: x.path → ∀ a ∈ y.2.args, a.Idle)
    (names : argv.tail = x.path.map RawText.ofString) :
    ∃ matched, t.route argv = .ok (.invocation { path := x.path, matched, handler }) := by
  obtain ⟨n, reached⟩ := Option.isSome_iff_exists.mp
    ((grown.holds.commands x.path).mpr (.inr ⟨x, member, List.prefix_refl _⟩))
  refine route_names grown.unclaimed reached
    ((grown.holds.handler?_eq_some_iff reached).mpr ⟨x, member, rfl, runs⟩) names options ?_
  intro q c above held
  obtain ⟨y, inside, rfl, rfl⟩ := (grown.holds.claims q c).mp held
  exact claims y inside above

end Grown

end Tree

end Tree

namespace App

/-- How a command that has run ends: its failure is that of its handler. -/
def outcome : Except Report Unit → Except Error Unit
  | .ok () => .ok ()
  | .error report => .error (.handler report)

/-- The entry about the command that is about to run. -/
def dispatchEntry (i : Invocation Handler) : LogEntry :=
  { level := .debug, spans := [], source := .command, message := "dispatching command command=" ++ i.path.text }

/-- A selection runs its handler, once and nothing else, after an entry to the log. -/
theorem run_runInvocation (registry : Registry) (i : Invocation Handler) (w : World) :
    World.run (runInvocation registry i) w =
      let ran := World.run (i.handler { matched := i.matched, registry }).run (w.keep (dispatchEntry i))
      (ran.1.map outcome, ran.2) := by
  have split : runInvocation registry i = Program.question (.log (dispatchEntry i)) >>= fun _ =>
      outcome <$> (i.handler { matched := i.matched, registry }).run := by
    rw [← bind_pure_comp]
    refine congrArg (Program.question _ >>= ·) (funext fun _ => congrArg (ExceptT.run _ >>= ·) ?_)
    funext r
    cases r <;> rfl
  rw [split, World.run_bind_finished (World.run_question _ w), World.run_map]
  rfl

theorem run_help {app : App} {argv : List RawText} {text : String}
    (asked : (app.tree.parse argv).1 = .ok (.help text)) (w : World) :
    World.run (app.run argv) w = (.finished (.ok ()), w.write [text]) := by
  simp only [run, parse, Tree.parse] at asked ⊢
  rw [asked]
  rfl

theorem run_refused {app : App} {argv : List RawText} {u : UsageError}
    (refused : (app.tree.parse argv).1 = .error u) (w : World) :
    World.run (app.run argv) w = (.finished (.error (.usage u)), w) := by
  simp only [run, parse, Tree.parse] at refused ⊢
  rw [refused]
  rfl

theorem run_invocation {app : App} {argv : List RawText} {i : Invocation Handler}
    (selected : (app.tree.parse argv).1 = .ok (.invocation i)) :
    app.run argv = runInvocation app.registry i := by
  simp only [run, parse, Tree.parse] at selected ⊢
  rw [selected]
  rfl

/-- A command line leads to help, to a selection or to a refusal, and closes the tree without touching
its claims. A selection runs the handler of a claimed fragment at the command that was entered; groups
without a handler are refused by their names; a refusal points to a command of the tree. -/
theorem parse_selects (app : App) (xs : List (Offer Handler)) (grown : app.tree.Grown xs)
    (argv : List RawText) :
    ((app.parse argv).2.registry = app.registry ∧ (app.parse argv).2.tree.isSealed = true ∧
      ∀ p, (app.parse argv).2.tree.claim? p = app.tree.claim? p) ∧
    (match (app.tree.parse argv).1 with
      | .ok (.help text) => ∀ w, World.run (app.run argv) w = (.finished (.ok ()), w.write [text])
      | .ok (.invocation i) =>
        app.tree.Selects xs argv i ∧ ∀ w, World.run (app.run argv) w =
          let ran := World.run (i.handler { matched := i.matched, registry := app.registry }).run
            (w.keep (dispatchEntry i))
          (ran.1.map outcome, ran.2)
      | .error u =>
        u.Guides xs argv ∧ ∀ w, World.run (app.run argv) w = (.finished (.error (.usage u)), w)) ∧
    (∀ p, (p = [] ∨ ∃ x ∈ xs, p <+: x.path) → (∀ x ∈ xs, x.path = p → x.2.handler = none) →
      argv.tail = p.map RawText.ofString → ∃ u, (app.tree.parse argv).1 = .error u) ∧
    (∀ x ∈ xs, ∀ handler, x.2.handler = some handler → (∀ g ∈ app.tree.globals, g.Idle) →
      (∀ y ∈ xs, y.path <+: x.path → ∀ a ∈ y.2.args, a.Idle) → argv.tail = x.path.map RawText.ofString →
      ∃ matched, (app.tree.parse argv).1 = .ok (.invocation { path := x.path, matched, handler })) := by
  have closed := grown.sealed
  refine ⟨?_, ?_, fun p => closed.group_refused, fun x member handler => closed.reaches member⟩
  · simp only [parse, Tree.parse]
    cases app.tree.sealed.route argv <;> exact ⟨rfl, rfl, fun p => rfl⟩
  · split
    · rename_i text asked
      exact run_help asked
    · rename_i i selected
      refine ⟨⟨(closed.selects selected).claimed, (closed.selects selected).entered⟩, fun w => ?_⟩
      rw [run_invocation selected, run_runInvocation]
    · rename_i u refused
      exact ⟨closed.guides refused, run_refused refused⟩

/-- A command that does nothing and has a group below it. -/
def nodeOffers : List (Offer Handler) :=
  [("node", { path := ["node"], about := "", handler := some fun _ => pure () }),
    ("node", { path := ["node", "peers"], about := "" })]

/-- The command can be selected, the group below it cannot. -/
theorem parse_selects_node : ∃ tree : Tree Handler, tree.Grown nodeOffers ∧
    (∃ matched handler, (tree.parse (["relayer", "node"].map RawText.ofString)).1 =
      .ok (.invocation { path := ["node"], matched, handler })) ∧
    ∃ u, (tree.parse (["relayer", "node", "peers"].map RawText.ofString)).1 = .error u := by
  have grown : Tree.Grown _ nodeOffers := .insert (.insert (.empty "relayer" none none []) rfl) rfl
  have selects := parse_selects ⟨.empty, _⟩ nodeOffers grown
  refine ⟨_, grown, ?_, ?_⟩
  · obtain ⟨matched, routed⟩ := (selects (["relayer", "node"].map RawText.ofString)).2.2.2
      ("node", { path := ["node"], about := "", handler := some fun _ => pure () }) (by simp [nodeOffers])
      (fun _ => pure ()) rfl (fun g absent => nomatch absent) (by simp [nodeOffers, Offer.path]) rfl
    exact ⟨matched, _, routed⟩
  · exact (selects (["relayer", "node", "peers"].map RawText.ofString)).2.2.1 ["node", "peers"]
      (.inr ⟨_, List.mem_cons_of_mem _ List.mem_cons_self, List.prefix_refl _⟩)
      (by simp [nodeOffers, Offer.path]) rfl

end App

end ChainRelay
