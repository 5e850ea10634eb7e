import ChainRelay.Proofs.Command.Lending

/-! # The place of an option

An option that one of the levels has gained is shared by all of them in the end, so what a command line leads to does
not depend on the place of the option among the names.
-/

namespace ChainRelay

open Args

namespace Args.Chain

section Lends

variable {id : String} {r : Received}

theorem Lends.getLast? {chain chain' : Chain} (lends : Lends id r chain chain') :
    ∃ l m m', chain.getLast? = some (l, m) ∧ chain'.getLast? = some (l, m') ∧ m.outside [id] = m'.outside [id] := by
  induction lends with
  | @here l m m' below gains without =>
      cases below with
      | nil => exact ⟨l, m, m', rfl, rfl, gains.others⟩
      | cons entry rest =>
          have last : (entry :: rest).getLast? = some ((entry :: rest).getLast (List.cons_ne_nil _ _)) :=
            List.getLast?_eq_some_getLast _
          exact ⟨_, _, _, last, last, rfl⟩
  | later lends ih =>
      obtain ⟨l, m, m', last, last', same⟩ := ih
      refine ⟨l, m, m', ?_, ?_, same⟩
      · rw [List.getLast?_cons, last, Option.getD_some]
      · rw [List.getLast?_cons, last', Option.getD_some]

theorem Lends.others {chain chain' : Chain} (lends : Lends id r chain chain') {other : String} (apart : other ≠ id) :
    chain'.sharedValue other = chain.sharedValue other := by
  have same : (chain'.map fun entry => entry.2.get? other) = chain.map fun entry => entry.2.get? other := by
    induction lends with
    | here gains without =>
        rw [List.map_cons, List.map_cons, Matches.get?_congr (by simpa using apart) gains.others]
    | later lends ih => rw [List.map_cons, List.map_cons, ih]
  rw [sharedValue, same, sharedValue]

theorem strengthen_commandLine (source : r.source = .commandLine) (known : Option Received) :
    strengthen known (some r) = some r := by
  cases known with
  | none => rfl
  | some o => cases given : o.source <;> simp [strengthen, strongest, given, source, Source.rank]

theorem foldl_strengthen (source : r.source = .commandLine) {values : List (Option Received)}
    (weaker : ∀ q, some q ∈ values → q.source ≠ .commandLine) : values.foldl strengthen (some r) = some r := by
  induction values with
  | nil => rfl
  | cons v rest ih =>
      have here : strengthen (some r) v = some r := by
        cases v with
        | none => rfl
        | some q =>
            have other := weaker q List.mem_cons_self
            cases given : q.source <;> simp_all [strengthen, strongest, Source.rank]
      rw [List.foldl_cons, here]
      exact ih fun q member => weaker q (List.mem_cons_of_mem _ member)

theorem Lends.given {chain chain' : Chain} (lends : Lends id r chain chain') (source : r.source = .commandLine) :
    chain'.sharedValue id = some r := by
  rw [sharedValue]
  generalize (none : Option Received) = known
  induction lends generalizing known with
  | later lends ih => exact ih _
  | here gains without =>
      rw [List.map_cons, List.foldl_cons, gains.given, strengthen_commandLine source]
      apply foldl_strengthen source
      intro q member
      obtain ⟨entry, inside, found⟩ := List.mem_map.mp member
      exact without entry inside q (List.mem_of_find?_eq_some found) (Matches.id_of_get? found)

theorem Lends.commonIds {chain chain' : Chain} (lends : Lends id r chain chain') :
    chain'.commonIds = chain.commonIds := by
  induction lends with
  | here gains without => rfl
  | later lends ih => simpa only [Chain.commonIds, List.flatMap_cons] using congrArg (_ ++ ·) ih

/-- In the end the innermost level has the option, and all else as without it. -/
theorem Lends.shared {chain chain' : Chain} (lends : Lends id r chain chain') (source : r.source = .commandLine)
    {ids : List String} (member : id ∈ ids) :
    ∃ l m m', (shareValues ids chain).getLast? = some (l, m) ∧ (shareValues ids chain').getLast? = some (l, m') ∧
      ∀ other, m'.get? other = if other = id then some r else m.get? other := by
  obtain ⟨l, m, m', last, last', same⟩ := lends.getLast?
  refine ⟨l, (sharedValues ids chain).foldl (fun m r => m.put r) m,
    (sharedValues ids chain').foldl (fun m r => m.put r) m', ?_, ?_, ?_⟩
  · rw [shareValues, List.getLast?_map, last]
    rfl
  · rw [shareValues, List.getLast?_map, last']
    rfl
  · intro other
    rw [get?_shared, get?_shared]
    by_cases here : other = id
    · rw [here, if_pos member, lends.given source, Option.some_or, if_pos rfl]
    · rw [lends.others here, Matches.get?_congr (by simpa using here) same, if_neg here]

end Lends

end Args.Chain

variable {H : Type u}

/-- The same help, or the same command with the same values. -/
def Routed.Same : Routed H → Routed H → Prop
  | .help text, .help text' => text = text'
  | .invocation i, .invocation i' =>
    i.path = i'.path ∧ i.handler = i'.handler ∧ ∀ id, i.matched.get? id = i'.matched.get? id
  | _, _ => False

/-- Two command lines lead to the same, or both are refused. -/
def Routed.SameEnd : Except UsageError (Routed H) → Except UsageError (Routed H) → Prop
  | .ok r, .ok r' => r.Same r'
  | .error _, .error _ => True
  | _, _ => False

namespace Tree

/-- A command line with a token before the name at a place of the path, or right after the path. -/
def lineAt (program : RawText) (p : CommandPath) (token : RawText) (rest : List RawText) (place : Nat) :
    List RawText :=
  program :: ((p.map RawText.ofString).insertIdx place token ++ rest)

/-- The option is one that all commands take, and nothing else is called like it. -/
structure Takes (t : Tree H) (g : ArgSpec) : Prop where
  member : g ∈ t.globals
  apart : ∀ a ∈ t.globals, a = g ∨ a.Apart g
  ignored : ∀ a ∈ t.globals, a.Ignores g.id
  plain : g.Plain
  help : helpOption.Apart g
  version : versionOption.Apart g

theorem Takes.knows {t : Tree H} {g : ArgSpec} (takes : t.Takes g) (unclaimed : t.root.claim = none)
    (calledAs : Option String) : (t.interface.level calledAs).Knows g where
  shared := takes.member
  apart := by
    apply (Node.shows_level t unclaimed calledAs).forall_args (P := fun a => a = g ∨ a.Apart g)
    · exact forall_lent_level calledAs (.inr takes.help) (.inr takes.version) takes.apart
    · intro c claimed
      rw [unclaimed] at claimed
      cases claimed

theorem Takes.spares {t : Tree H} {g : ArgSpec} (takes : t.Takes g) {xs : List (Offer H)} (grown : t.Grown xs) :
    t.root.Spares g where
  undashed := grown.undashed
  help := takes.help
  apart _ _ claimed a inside := grown.apart_of_claim claimed a inside g takes.member

/-- Along a path whose claims say nothing of the option it is of no account. -/
theorem Takes.overlooks {t : Tree H} {g : ArgSpec} (takes : t.Takes g) (calledAs : Option String) {p : CommandPath}
    (claims : ∀ q c, q <+: p → t.claim? q = some c → ∀ a ∈ c.args, a.Ignores g.id) :
    t.root.Overlooks (t.interface.level calledAs) p g where
  plain := takes.plain
  lent := forall_lent_level calledAs ⟨rfl, List.not_mem_nil, List.not_mem_nil⟩
    ⟨rfl, List.not_mem_nil, List.not_mem_nil⟩ takes.ignored
  claims := claims

/-- What is read of a command line. -/
def read (t : Tree H) (argv : List RawText) : Except Stop Chain :=
  readLevel (t.interface.level (calledAs? argv)) argv.tail .start

/-- The option is one of those that the levels have in common. -/
theorem Takes.mem_commonIds {t : Tree H} {g : ArgSpec} (takes : t.Takes g) {argv : List RawText} {chain : Chain}
    (done : t.read argv = .ok chain) : g.id ∈ chain.commonIds := by
  obtain ⟨m, below, rfl⟩ := head_of_readLevel done
  rw [Chain.commonIds, List.flatMap_cons]
  exact List.mem_append_left _ (List.mem_append_right _ (List.mem_map_of_mem takes.member))

/-- The innermost level that was read decides what a command line selects. -/
theorem route_of_read {t : Tree H} (unclaimed : t.root.claim = none) {argv : List RawText} {chain : Chain}
    (done : t.read argv = .ok chain) {l : Level} {m : Matches}
    (last : (shareValues chain.commonIds chain).getLast? = some (l, m)) :
    ∃ n, t.root.get? l.path = some n ∧ t.route argv = match n.handler? with
      | some handler => .ok (.invocation { path := l.path, matched := m, handler })
      | none => .error (t.usageError argv.tail "error: a subcommand is required") := by
  have selected : t.interface.parse (calledAs? argv) argv.tail = .selected _ :=
    parse_eq_selected_iff.mpr ⟨chain, done, rfl⟩
  obtain ⟨level, values, n, last', reached, -, routed⟩ := route_of_selected unclaimed selected
  have same : some (level, values) = some (l, m) := last'.symm.trans last
  rw [Option.some.injEq, Prod.mk.injEq] at same
  obtain ⟨rfl, rfl⟩ := same
  exact ⟨n, reached, routed⟩

section Places

variable {t : Tree H} {xs : List (Offer H)} (grown : t.Grown xs) {g : ArgSpec} (takes : t.Takes g)
  {flag value : String} (given : g.Given flag value) {p : CommandPath} (named : p ≠ [])
  (command : (t.root.get? p).isSome)
  (claims : ∀ q c, q <+: p → t.claim? q = some c → ∀ a ∈ c.args, a.Ignores g.id) {rest : List RawText}
  (silent : Silent flag false rest) (program : RawText) {i j : Nat} (first : i ≤ p.length) (second : j ≤ p.length)
include grown takes given command claims silent

theorem Grown.follows_place (inside : i ≤ p.length) :
    Follows g.Omissible (Chain.Lends g.id (g.received value)) (t.read (program :: (p.map RawText.ofString ++ rest)))
      (t.read (lineAt program p (optionToken flag value) rest i)) := by
  obtain ⟨n, reached⟩ := Option.isSome_iff_exists.mp command
  exact (Node.shows_level t grown.unclaimed _).readLevel_places (takes.spares grown) (takes.knows grown.unclaimed _)
    given reached (takes.overlooks _ claims) silent inside

include first second

theorem Grown.asked_places :
    asked (t.read (lineAt program p (optionToken flag value) rest i)) =
      asked (t.read (lineAt program p (optionToken flag value) rest j)) :=
  (grown.follows_place takes given command claims silent program first).asked.symm.trans
    (grown.follows_place takes given command claims silent program second).asked

include named

/-- What is read with the option at one place is read with the option at any other. -/
theorem Grown.read_places {chain : Chain}
    (done : t.read (lineAt program p (optionToken flag value) rest i) = .ok chain) :
    ∃ without chain', t.read (lineAt program p (optionToken flag value) rest j) = .ok chain' ∧
      Chain.Lends g.id (g.received value) without chain ∧ Chain.Lends g.id (g.received value) without chain' := by
  obtain ⟨n, reached⟩ := Option.isSome_iff_exists.mp command
  have omissible := (Node.shows_level t grown.unclaimed _).omissible_of_places (takes.spares grown)
    (takes.knows grown.unclaimed _) given reached (takes.overlooks _ claims) silent first named done
  obtain ⟨without, read, lends⟩ :=
    (grown.follows_place takes given command claims silent program first).back omissible chain done
  obtain ⟨-, chain', done', lends'⟩ :=
    (grown.follows_place takes given command claims silent program second).forth without read
  exact ⟨without, chain', done', lends, lends'⟩

theorem Grown.sameEnd_places :
    Routed.SameEnd (t.route (lineAt program p (optionToken flag value) rest i))
      (t.route (lineAt program p (optionToken flag value) rest j)) := by
  cases here : t.read (lineAt program p (optionToken flag value) rest i) with
  | ok chain =>
      obtain ⟨without, chain', there, lends, lends'⟩ :=
        grown.read_places takes given named command claims silent program first second here
      obtain ⟨l, m, m₁, last, last₁, values⟩ := lends.shared rfl (takes.mem_commonIds here)
      obtain ⟨l', m', m₂, last', last₂, values'⟩ := lends'.shared rfl (takes.mem_commonIds there)
      have same : chain.commonIds = chain'.commonIds := lends.commonIds.trans lends'.commonIds.symm
      rw [← same] at last' last₂
      rw [last, Option.some.injEq, Prod.mk.injEq] at last'
      obtain ⟨rfl, rfl⟩ := last'
      obtain ⟨n, reached, routed⟩ := route_of_read grown.unclaimed here last₁
      obtain ⟨n', reached', routed'⟩ := route_of_read grown.unclaimed there (same ▸ last₂)
      rw [reached, Option.some.injEq] at reached'
      subst reached'
      rw [routed, routed']
      cases n.handler? with
      | none => trivial
      | some handler => exact ⟨rfl, rfl, fun id => (values id).trans (values' id).symm⟩
  | error stop =>
      cases there : t.read (lineAt program p (optionToken flag value) rest j) with
      | ok chain' =>
          obtain ⟨-, chain, done, -⟩ :=
            grown.read_places takes given named command claims silent program second first there
          rw [here] at done
          cases done
      | error stop' =>
          have same : stop.request? = stop'.request? := by
            have both := grown.asked_places takes given command claims silent program first second
            rwa [here, there] at both
          rw [read] at here there
          unfold route Interface.parse
          simp only [here, there]
          cases stop <;> cases stop' <;> simp_all [Stop.request?, Routed.SameEnd, Routed.Same]

omit second in
/-- The command that is selected has the value of the command line. -/
theorem Grown.get?_place {invocation : Invocation H}
    (routed : t.route (lineAt program p (optionToken flag value) rest i) = .ok (.invocation invocation)) :
    invocation.matched.get? g.id = some (g.received value) := by
  obtain ⟨chain, l, n, selected, last, -⟩ := (route_eq_invocation_iff grown.unclaimed).mp routed
  obtain ⟨read, done, rfl⟩ := parse_eq_selected_iff.mp selected
  obtain ⟨without, -, -, lends, -⟩ := grown.read_places takes given named command claims silent program first first done
  obtain ⟨l', m, m', -, last', values⟩ :=
    lends.shared rfl (takes.mem_commonIds done)
  have same : some (l, invocation.matched) = some (l', m') := last.symm.trans last'
  rw [Option.some.injEq, Prod.mk.injEq] at same
  rw [same.2, values, if_pos rfl]

end Places

end Tree

end ChainRelay
