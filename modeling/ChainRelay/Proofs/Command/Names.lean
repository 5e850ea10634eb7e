import ChainRelay.Proofs.Args.Completion
import ChainRelay.Proofs.Command.Growth
import ChainRelay.Proofs.Command.Levels

/-! # Command lines of names

A command line that consists of the names on a path enters exactly the commands on that path. It can
fail only while a level is completed, and does not fail where nothing on the way asks for a value.
-/

namespace ChainRelay

namespace Args

/-- The argument may be left out: it is not required, the environment does not stand in for it, and a
default that stands for it is admitted. -/
structure ArgSpec.Idle (a : ArgSpec) : Prop where
  optional : a.required = false
  unset : a.env.bind (·.value) = none
  default : ∀ v, defaultValue? a = some v → ∃ held, holdValue a none (some v) = .ok held

theorem idle_helpOption : helpOption.Idle where
  optional := rfl
  unset := rfl
  default := by simp [defaultValue?, helpOption]

theorem idle_versionOption : versionOption.Idle where
  optional := rfl
  unset := rfl
  default := by simp [defaultValue?, versionOption]

/-- A level where nothing asks for a value is complete from the start, unless it cannot stand alone. -/
theorem complete_idle {l : Level} {hasChild : Bool} (idle : ∀ a ∈ l.args, a.Idle)
    (stands : hasChild = true ∨ l.needsChild = false) : ∃ m, complete l hasChild .start = .ok m := by
  have environment : Fills .environment standIn? l.args [] [] := fills_of_none fun a member => (idle a member).unset
  obtain ⟨m, defaults⟩ : ∃ m, Fills .default defaultValue? l.args [] m :=
    fills_of_admitted fun a member v value => .inr ((idle a member).default v value)
  have nothing : m.explicitIds = [] := by
    rw [Matches.explicitIds, List.map_eq_nil_iff, List.filter_eq_nil_iff]
    intro r member
    simp [((defaults.added r member).resolve_left List.not_mem_nil).1]
  refine ⟨m, complete_eq_ok_iff.mpr ⟨.start, [], rfl, environment, defaults, stands, nothing ▸ agree_of_plain ?_ ?_⟩⟩
  · intro a _ given
    cases given
  · intro a member required
    rw [(idle a member).optional] at required
    cases required

/-- The end of an attempt to read is a result or a refusal. -/
def Refuses (x : Except Stop α) : Prop :=
  ∀ stop, x = .error stop → ∃ f, stop = .failed f

theorem refuses_bind {x : Except Stop α} {f : α → Except Stop β} (first : Refuses x)
    (rest : ∀ a, Refuses (f a)) : Refuses (x >>= f) := by
  cases x with
  | error stop => exact fun other same => first other (by simpa [bind, Except.bind] using same)
  | ok a => exact rest a

theorem refuses_ok (a : α) : Refuses (.ok a) :=
  fun _ stopped => nomatch stopped

theorem refuses_refuse (l : Level) (cause : Cause) (used : List String) :
    Refuses (.error (refuse l cause used) : Except Stop α) :=
  fun _ stopped => ⟨_, (Except.error.inj stopped).symm⟩

theorem refuses_settled (l : Level) (s : Scan) : Refuses (settled l s) := by
  unfold settled
  rcases settle s with ⟨s, _ | cause⟩
  · exact refuses_ok s
  · exact refuses_refuse l cause []

/-- A level that cannot be completed is refused. -/
theorem refuses_complete (l : Level) (hasChild : Bool) (s : Scan) :
    Refuses (complete l hasChild s) := by
  unfold complete
  refine refuses_bind (refuses_settled l s) fun s => ?_
  refine refuses_bind ?_ fun m => refuses_bind ?_ fun m => ?_
  · rcases receiveEnvironment l.args s.matched with ⟨m, _ | cause⟩
    · exact refuses_ok m
    · exact refuses_refuse l cause []
  · rcases receiveDefaults l.args m with ⟨m, _ | cause⟩
    · exact refuses_ok m
    · exact refuses_refuse l cause []
  · split
    · exact refuses_refuse l _ []
    · refine refuses_bind ?_ fun _ => refuses_ok m
      rcases checkGiven_cases l m.explicitIds with agree | ⟨cause, used, clash⟩
      · exact agree ▸ refuses_ok ()
      · exact clash ▸ refuses_refuse l cause used

end Args

open Args

variable {H : Type u}

namespace Node

/-- The name of a command enters that command. -/
theorem Shows.readLevel_name {n child : Node H} {l : Level} (shows : n.Shows l) {name : String}
    (found : n.child? name = some child) (rest : List RawText) :
    readLevel l (RawText.ofString name :: rest) .start = do
      let below ← readLevel (l.enter (child.command name)) rest .start
      let m ← complete l true .start
      return (l, m) :: below := by
  have entered : entered? l (RawText.ofString name) .start = some (child.command name) := by
    change namedChild? l (RawText.ofString name) = _
    rw [namedChild?, RawText.toString?_ofString, Option.bind_some, shows.child?, found, Option.map_some]
  simp only [readLevel, entered]

/-- Names are read or refused. -/
theorem Shows.refuses_names {n deepest : Node H} {l : Level} (shows : n.Shows l)
    {names : List String} (reached : n.get? names = some deepest) :
    Refuses (readLevel l (names.map RawText.ofString) .start) := by
  induction names generalizing n l with
  | nil => exact refuses_bind (refuses_complete l false .start) fun m => refuses_ok _
  | cons name rest ih =>
      obtain ⟨child, found, below⟩ := Option.bind_eq_some_iff.mp reached
      rw [List.map_cons, shows.readLevel_name found]
      refine refuses_bind (ih (shows_enter child name l) below) fun chain => ?_
      exact refuses_bind (refuses_complete l true .start) fun m => refuses_ok _

/-- The innermost level that names enter is that of their path. -/
theorem Shows.path_of_names {n deepest : Node H} {l : Level} (shows : n.Shows l) {names : List String}
    (reached : n.get? names = some deepest) {chain : Chain}
    (read : readLevel l (names.map RawText.ofString) .start = .ok chain) :
    ∃ level m, chain.getLast? = some (level, m) ∧ level.path = l.path ++ names := by
  induction names generalizing n l chain with
  | nil =>
      obtain ⟨m, -, done⟩ := bind_eq_ok_iff.mp read
      cases done
      exact ⟨l, m, by simp⟩
  | cons name rest ih =>
      obtain ⟨child, found, below⟩ := Option.bind_eq_some_iff.mp reached
      rw [List.map_cons, shows.readLevel_name found] at read
      obtain ⟨others, deeper, read⟩ := bind_eq_ok_iff.mp read
      obtain ⟨m, -, done⟩ := bind_eq_ok_iff.mp read
      cases done
      obtain ⟨level, values, last, path⟩ := ih (shows_enter child name l) below deeper
      refine ⟨level, values, ?_, by simpa [Level.enter, command] using path⟩
      rw [List.getLast?_cons, last, Option.getD_some]

/-- What holds of the arguments that a level has from elsewhere and of what its command declares holds of all its
arguments. -/
theorem Shows.forall_args {n : Node H} {l : Level} (shows : n.Shows l) {P : ArgSpec → Prop}
    (lent : ∀ a ∈ l.lent, P a) (own : ∀ c, n.claim = some c → ∀ a ∈ c.args, P a) : ∀ a ∈ l.args, P a := by
  rw [Level.args, List.forall_mem_append, shows.own]
  refine ⟨?_, lent⟩
  cases held : n.claim with
  | none => simp
  | some c => exact own c held

theorem forall_lent_enter {l : Level} {c : Command} {P : ArgSpec → Prop} (help : P helpOption)
    (args : ∀ a ∈ l.args, P a) : ∀ a ∈ (l.enter c).lent, P a := by
  intro a member
  rcases Level.mem_lent_enter member with above | rfl
  · exact args a above
  · exact help

theorem forall_claims_enter {n child : Node H} {name : String} {rest : List String} {P : ArgSpec → Prop}
    (found : n.child? name = some child)
    (claims : ∀ p c, p <+: name :: rest → n.claimAt p = some c → ∀ a ∈ c.args, P a) :
    ∀ p c, p <+: rest → child.claimAt p = some c → ∀ a ∈ c.args, P a := by
  intro p c above held
  refine claims (name :: p) c (List.cons_prefix_cons.mpr ⟨rfl, above⟩) ?_
  rw [claimAt_cons, found]
  exact held

/-- Names are read where nothing on the way asks for a value. -/
theorem Shows.names_idle {n deepest : Node H} {l : Level} (shows : n.Shows l) {names : List String}
    (reached : n.get? names = some deepest) (stands : deepest.needsChild = false)
    (lent : ∀ a ∈ l.lent, a.Idle)
    (claims : ∀ p c, p <+: names → n.claimAt p = some c → ∀ a ∈ c.args, a.Idle) :
    ∃ chain, readLevel l (names.map RawText.ofString) .start = .ok chain := by
  induction names generalizing n l with
  | nil =>
      cases reached
      have idle := shows.forall_args lent fun c => claims [] c List.nil_prefix
      obtain ⟨m, done⟩ : ∃ m, complete l false .start = .ok m :=
        complete_idle idle (.inr (shows.needsChild.trans stands))
      exact ⟨[(l, m)], bind_eq_ok_iff.mpr ⟨m, done, rfl⟩⟩
  | cons name rest ih =>
      obtain ⟨child, found, below⟩ := Option.bind_eq_some_iff.mp reached
      have idle := shows.forall_args lent fun c => claims [] c List.nil_prefix
      obtain ⟨m, done⟩ := complete_idle idle (.inl rfl)
      obtain ⟨chain, read⟩ := ih (shows_enter child name l) below
        (forall_lent_enter idle_helpOption idle) (forall_claims_enter found claims)
      refine ⟨(l, m) :: chain, ?_⟩
      rw [List.map_cons, shows.readLevel_name found]
      exact bind_eq_ok_iff.mpr ⟨chain, read, bind_eq_ok_iff.mpr ⟨m, done, rfl⟩⟩

end Node

namespace Tree

/-- Names that are read select the command on their path, if it has a handler. -/
theorem route_of_names {t : Tree H} (unclaimed : t.root.claim = none) {p : CommandPath} {deepest : Node H}
    (reached : t.root.get? p = some deepest) {argv : List RawText}
    (names : argv.tail = p.map RawText.ofString) {chain : Chain}
    (read : readLevel (t.interface.level (calledAs? argv)) (p.map RawText.ofString) .start = .ok chain) :
    ∃ matched, t.route argv = match deepest.handler? with
      | some handler => .ok (.invocation { path := p, matched, handler })
      | none => .error (t.usageError argv.tail "error: a subcommand is required") := by
  obtain ⟨level, m, last, path⟩ :=
    (Node.shows_level t unclaimed (calledAs? argv)).path_of_names reached read
  obtain ⟨level', values, n, last', reached', -, routed⟩ :=
    route_of_selected unclaimed (parse_eq_selected_iff.mpr ⟨chain, names ▸ read, rfl⟩)
  simp only [shareValues, List.getLast?_map, last, Option.map_some, Option.some.injEq, Prod.mk.injEq] at last'
  obtain ⟨rfl, -⟩ := last'
  have here : level.path = p := path
  rw [here, reached, Option.some.injEq] at reached'
  subst reached'
  exact ⟨values, here ▸ routed⟩

/-- The names of a command without a handler select nothing. -/
theorem route_names_error {t : Tree H} (unclaimed : t.root.claim = none) {p : CommandPath}
    {deepest : Node H} (reached : t.root.get? p = some deepest) (group : deepest.handler? = none)
    {argv : List RawText} (names : argv.tail = p.map RawText.ofString) :
    ∃ u, t.route argv = .error u := by
  cases read : readLevel (t.interface.level (calledAs? argv)) (p.map RawText.ofString) .start with
  | error stop =>
      obtain ⟨f, rfl⟩ :=
        (Node.shows_level t unclaimed (calledAs? argv)).refuses_names reached stop read
      exact ⟨t.usageError argv.tail f.message, by simp only [route, Interface.parse, names, read]⟩
  | ok chain =>
      obtain ⟨matched, routed⟩ := route_of_names unclaimed reached names read
      simp only [group] at routed
      exact ⟨_, routed⟩

theorem forall_lent_level {t : Tree H} (calledAs : Option String) {P : ArgSpec → Prop}
    (help : P helpOption) (version : P versionOption) (options : ∀ a ∈ t.globals, P a) :
    ∀ a ∈ (t.interface.level calledAs).lent, P a := by
  refine List.forall_mem_append.mpr ⟨options, ?_⟩
  simp only [Interface.level, List.forall_mem_cons]
  refine ⟨help, ?_⟩
  split
  · simpa using version
  · simp

/-- The names of a command with a handler select it, where nothing on the way asks for a value. -/
theorem route_names {t : Tree H} (unclaimed : t.root.claim = none) {p : CommandPath}
    {deepest : Node H} {handler : H} (reached : t.root.get? p = some deepest)
    (runs : deepest.handler? = some handler) {argv : List RawText}
    (names : argv.tail = p.map RawText.ofString) (options : ∀ a ∈ t.globals, a.Idle)
    (claims : ∀ q c, q <+: p → t.claim? q = some c → ∀ a ∈ c.args, a.Idle) :
    ∃ matched, t.route argv = .ok (.invocation { path := p, matched, handler }) := by
  have stands : deepest.needsChild = false := by simp [Node.needsChild, runs]
  obtain ⟨chain, read⟩ := (Node.shows_level t unclaimed (calledAs? argv)).names_idle reached stands
    (forall_lent_level _ idle_helpOption idle_versionOption options) claims
  obtain ⟨matched, routed⟩ := route_of_names unclaimed reached names read
  simp only [runs] at routed
  exact ⟨matched, routed⟩

end Tree

end ChainRelay
