import ChainRelay.Command.Routing
import ChainRelay.Proofs.Args.Kin
import ChainRelay.Proofs.Command.Insertion

/-! # Levels of a command line and commands of the tree

A command line is read against commands that are rendered from the tree. The two stay in step: the
level that the tokens have reached shows the command that the names on the way lead to, so the walk
down the tree ends where the reading ended.
-/

namespace ChainRelay

open Args

variable {H : Type u}

namespace Node

/-- A command of the tree as a command line knows it. -/
def command (name : String) (n : Node H) : Command :=
  { name
    about := n.claim.map (·.about)
    args := (n.claim.map (·.args)).getD []
    needsChild := n.needsChild
    children := n.commands }

theorem commandsOf_eq (children : List (String × Node H)) :
    commandsOf children = children.map fun entry => entry.2.command entry.1 := by
  induction children with
  | nil => simp only [commandsOf, List.map_nil]
  | cons entry rest ih =>
      obtain ⟨name, claim, below⟩ := entry
      rw [commandsOf, ih, List.map_cons]
      rfl

theorem find?_commands (n : Node H) (name : String) :
    n.commands.find? (·.name == name) = (n.child? name).map (command name) := by
  rw [commands, commandsOf_eq, List.find?_map, child?]
  change ((n.children.find? (·.1 == name)).map fun entry => entry.2.command entry.1) = _
  cases found : n.children.find? (·.1 == name) with
  | none => rfl
  | some entry =>
      have same : entry.1 = name := by simpa using List.find?_some found
      simp [same]

/-- The level offers what the command declares. -/
structure Shows (n : Node H) (l : Level) : Prop where
  own : l.own = (n.claim.map (·.args)).getD []
  needsChild : l.needsChild = n.needsChild
  children : l.children = n.commands

theorem Shows.child? {n : Node H} {l : Level} (shows : n.Shows l) (name : String) :
    l.child? name = (n.child? name).map (command name) := by
  rw [Level.child?, shows.children, find?_commands]

theorem shows_enter (n : Node H) (name : String) (l : Level) : n.Shows (l.enter (n.command name)) :=
  ⟨rfl, rfl, rfl⟩

theorem shows_level (t : Tree H) (unclaimed : t.root.claim = none) (calledAs : Option String) :
    t.root.Shows (t.interface.level calledAs) where
  own := by simp [Interface.level, unclaimed]
  needsChild := rfl
  children := rfl

/-- A token enters a command of the tree. -/
theorem Shows.entered {n : Node H} {l : Level} (shows : n.Shows l) {t : RawText} {s : Scan}
    {c : Command} (entered : entered? l t s = some c) :
    ∃ name child, t.toString? = some name ∧ n.child? name = some child ∧ c = child.command name := by
  have named : namedChild? l t = some c := by
    unfold entered? at entered
    split at entered
    · exact entered
    · cases entered
  obtain ⟨name, text, found⟩ := Option.bind_eq_some_iff.mp named
  rw [shows.child?] at found
  obtain ⟨child, inside, same⟩ := Option.map_eq_some_iff.mp found
  exact ⟨name, child, text, inside, same.symm⟩

/-- Levels below a level that follow the commands below a command, down to the last one. -/
inductive Descends : Node H → Level → Chain → Node H → Prop where
  | stop {n : Node H} {l : Level} : Descends n l [] n
  | enter {n child deepest : Node H} {l : Level} {name : String} {matched : Matches} {below : Chain}
      (found : n.child? name = some child)
      (rest : Descends child (l.enter (child.command name)) below deepest) :
      Descends n l ((l.enter (child.command name), matched) :: below) deepest

/-- What is read goes down the tree. -/
theorem descends_of_readLevel {n : Node H} {l : Level} {tokens : List RawText} {s : Scan}
    {chain : Chain} (shows : n.Shows l) (read : readLevel l tokens s = .ok chain) :
    ∃ matched below deepest, chain = (l, matched) :: below ∧ n.Descends l below deepest := by
  induction tokens generalizing n l s chain with
  | nil =>
      obtain ⟨m, -, done⟩ := bind_eq_ok_iff.mp read
      cases done
      exact ⟨m, [], n, rfl, .stop⟩
  | cons t rest ih =>
      rw [readLevel] at read
      cases entered : entered? l t s with
      | none =>
          simp only [entered] at read
          obtain ⟨s', -, later⟩ := bind_eq_ok_iff.mp read
          exact ih shows later
      | some c =>
          obtain ⟨name, child, -, found, rfl⟩ := shows.entered entered
          simp only [entered] at read
          obtain ⟨below, deeper, read⟩ := bind_eq_ok_iff.mp read
          obtain ⟨m, -, done⟩ := bind_eq_ok_iff.mp read
          cases done
          obtain ⟨first, others, deepest, rfl, descends⟩ := ih (shows_enter child name l) deeper
          exact ⟨m, _, deepest, rfl, .enter found descends⟩

/-- Other values at the same levels. -/
theorem Descends.map {n deepest : Node H} {l : Level} {below : Chain}
    (descends : n.Descends l below deepest) (f : Matches → Matches) :
    n.Descends l (below.map fun entry => (entry.1, f entry.2)) deepest := by
  induction descends with
  | stop => exact .stop
  | enter found rest ih => exact .enter found ih

/-- The walk down the tree goes along all levels: it ends at the command of the last one, with the
path and the values of that level. -/
theorem Descends.follow {n deepest : Node H} {l level : Level} {below : Chain}
    {matched values : Matches} (descends : n.Descends l below deepest)
    (last : ((l, matched) :: below).getLast? = some (level, values)) :
    n.follow l.path matched below = (level.path, values, deepest) ∧
      ∃ names, level.path = l.path ++ names ∧ n.get? names = some deepest ∧
        below.map (·.1.name?) = names.map some := by
  induction descends generalizing matched with
  | stop =>
      simp only [List.getLast?_singleton, Option.some.injEq, Prod.mk.injEq] at last
      obtain ⟨rfl, rfl⟩ := last
      exact ⟨rfl, [], by simp⟩
  | @enter n child deepest l name own below found rest ih =>
      rw [List.getLast?_cons_cons] at last
      obtain ⟨walk, names, path, reached, named⟩ := ih last
      have here : (l.enter (child.command name)).name? = some name := by
        simp [Level.enter, Level.name?, command]
      refine ⟨?_, name :: names, ?_, ?_, ?_⟩
      · simp only [Node.follow, here, found]
        exact walk
      · simpa [Level.enter, command] using path
      · rw [get?_cons, found]
        exact reached
      · simp only [List.map_cons, here, named]

end Node

theorem parse_eq_selected_iff {i : Interface} {calledAs : Option String} {tokens : List RawText}
    {chain : Chain} :
    i.parse calledAs tokens = .selected chain ↔
      ∃ read, readLevel (i.level calledAs) tokens .start = .ok read ∧
        chain = shareValues read.commonIds read := by
  unfold Interface.parse
  split
  · rename_i read done
    simp [done, eq_comm]
  all_goals simp_all

namespace Tree

theorem aligned_level {t t' : Tree H} (version : t.version = t'.version) (globals : t.globals = t'.globals)
    (calledAs : Option String) : (t.interface.level calledAs).Aligned (t'.interface.level calledAs) where
  path := rfl
  inherited := rfl
  shared := globals
  standard := congrArg (fun version => helpOption :: if Option.isSome version then [versionOption] else []) version

/-- A selection goes down the tree. -/
theorem descends_of_selected {t : Tree H} (unclaimed : t.root.claim = none)
    {calledAs : Option String} {tokens : List RawText} {chain : Chain}
    (selected : t.interface.parse calledAs tokens = .selected chain) :
    ∃ matched below deepest, chain = (t.interface.level calledAs, matched) :: below ∧
      t.root.Descends (t.interface.level calledAs) below deepest := by
  obtain ⟨read, done, rfl⟩ := parse_eq_selected_iff.mp selected
  obtain ⟨matched, below, deepest, rfl, descends⟩ :=
    Node.descends_of_readLevel (Node.shows_level t unclaimed calledAs) done
  exact ⟨_, _, deepest, rfl, descends.map fun m => (sharedValues _ _).foldl (fun m r => m.put r) m⟩

/-- The walk down the tree ends at the command that the innermost level shows. -/
theorem route_of_selected {t : Tree H} (unclaimed : t.root.claim = none) {argv : List RawText} {chain : Chain}
    (selected : t.interface.parse (calledAs? argv) argv.tail = .selected chain) :
    ∃ level values n, chain.getLast? = some (level, values) ∧ t.root.get? level.path = some n ∧
      chain.tail.map (·.1.name?) = level.path.map some ∧
      t.route argv = match n.handler? with
        | some handler => .ok (.invocation { path := level.path, matched := values, handler })
        | none => .error (t.usageError argv.tail "error: a subcommand is required") := by
  obtain ⟨matched, below, deepest, rfl, descends⟩ := descends_of_selected unclaimed selected
  obtain ⟨⟨level, values⟩, last⟩ : ∃ entry, ((t.interface.level (calledAs? argv), matched) :: below).getLast? =
      some entry := ⟨_, List.getLast?_eq_some_getLast (List.cons_ne_nil _ _)⟩
  obtain ⟨walk, names, path, reached, named⟩ := descends.follow last
  have fromRoot : level.path = names := path
  have walked : t.root.follow [] matched below = (level.path, values, deepest) := walk
  refine ⟨level, values, deepest, last, fromRoot ▸ reached, fromRoot ▸ named, ?_⟩
  cases runs : deepest.handler? <;> simp only [route, selected, walked, runs]

/-- A command line selects a command with a handler exactly if the innermost level that it enters is
that command, which then gets the values of that level. -/
theorem route_eq_invocation_iff {t : Tree H} (unclaimed : t.root.claim = none) {argv : List RawText}
    {i : Invocation H} :
    t.route argv = .ok (.invocation i) ↔
      ∃ chain level n, t.interface.parse (calledAs? argv) argv.tail = .selected chain ∧
        chain.getLast? = some (level, i.matched) ∧ level.path = i.path ∧
        t.root.get? i.path = some n ∧ n.handler? = some i.handler := by
  constructor
  · intro routed
    cases outcome : t.interface.parse (calledAs? argv) argv.tail with
    | help level long => simp [route, outcome] at routed
    | version => simp [route, outcome] at routed
    | failed f => simp [route, outcome] at routed
    | selected chain =>
        obtain ⟨level, values, n, last, reached, -, answer⟩ := route_of_selected unclaimed outcome
        rw [routed] at answer
        cases found : n.handler? with
        | none => simp [found] at answer
        | some handler =>
            simp only [found, Except.ok.injEq, Routed.invocation.injEq] at answer
            subst answer
            exact ⟨chain, level, n, rfl, last, rfl, reached, found⟩
  · rintro ⟨chain, level, n, selected, last, path, reached, found⟩
    obtain ⟨level', values, n', last', reached', -, answer⟩ := route_of_selected unclaimed selected
    rw [last, Option.some.injEq, Prod.mk.injEq] at last'
    obtain ⟨rfl, rfl⟩ := last'
    rw [path, reached, Option.some.injEq] at reached'
    subst reached'
    simpa only [found, path] using answer

end Tree

end ChainRelay
