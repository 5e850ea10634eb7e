import ChainRelay.Proofs.Command.Growth
import ChainRelay.Proofs.Command.Levels

/-! # Order of the commands

The order in which commands came into a tree shows in help texts, in suggestions and in the listed
paths, but never in what a command line selects: trees with the same claims and the same groups accept
the same command lines with the same values.
-/

namespace ChainRelay

open Args

variable {H : Type u}

namespace Node

/-- The same commands with the same claims below both, in any order. -/
structure Alike (n n' : Node H) : Prop where
  claims : ∀ p, n.claimAt p = n'.claimAt p
  commands : ∀ p, (n.get? p).isSome = (n'.get? p).isSome

theorem Alike.claim {n n' : Node H} (alike : n.Alike n') : n.claim = n'.claim :=
  alike.claims []

theorem Alike.isSome_child? {n n' : Node H} (alike : n.Alike n') (name : String) :
    (n.child? name).isSome = (n'.child? name).isSome := by
  rw [← get?_singleton, ← get?_singleton]
  exact alike.commands [name]

theorem Alike.child {n n' child : Node H} (alike : n.Alike n') {name : String}
    (found : n.child? name = some child) :
    ∃ child', n'.child? name = some child' ∧ child.Alike child' := by
  have there := alike.isSome_child? name
  rw [found, Option.isSome_some, eq_comm, Option.isSome_iff_exists] at there
  obtain ⟨child', found'⟩ := there
  refine ⟨child', found', ?_, ?_⟩
  · intro p
    simpa only [claimAt_cons, found, found', Option.bind_some] using alike.claims (name :: p)
  · intro p
    simpa only [get?_cons, found, found', Option.bind_some] using alike.commands (name :: p)

theorem isEmpty_children (n : Node H) : n.children.isEmpty = true ↔ ∀ name, n.child? name = none := by
  obtain ⟨claim, children⟩ := n
  cases children with
  | nil => simp [child?]
  | cons entry rest =>
      obtain ⟨name, first⟩ := entry
      simp only [List.isEmpty_cons, Bool.false_eq_true, false_iff]
      intro none
      simpa [child?_cons] using none name

theorem Alike.needsChild {n n' : Node H} (alike : n.Alike n') : n.needsChild = n'.needsChild := by
  have children : n.children.isEmpty = n'.children.isEmpty := by
    rw [Bool.eq_iff_iff, isEmpty_children, isEmpty_children]
    simp only [← Option.not_isSome_iff_eq_none, alike.isSome_child?]
  rw [Node.needsChild, Node.needsChild, handler?, handler?, children, alike.claim]

/-- Aligned levels that show alike commands read alike. -/
theorem Alike.kin {n n' : Node H} {l l' : Level} (alike : n.Alike n') (shows : n.Shows l)
    (shows' : n'.Shows l') (aligned : l.Aligned l') : l.Kin l' where
  args := by simp only [Level.args, shows.own, shows'.own, alike.claim, aligned.lent]
  needsChild := by rw [shows.needsChild, shows'.needsChild, alike.needsChild]
  names := by
    intro name
    rw [shows.child?, shows'.child?, Option.isSome_map, Option.isSome_map]
    exact alike.isSome_child? name

theorem Alike.passed {n n' : Node H} {l l' : Level} (alike : n.Alike n') (shows : n.Shows l)
    (shows' : n'.Shows l') (aligned : l.Aligned l') : l.passed = l'.passed := by
  rw [Level.passed, Level.passed, shows.own, shows'.own, alike.claim, aligned.inherited]

end Node

namespace Args.Chain

/-- The names that lead to each level, with what it has in common with those below and its values. -/
def trace (chain : Chain) : List (List String × List String × Matches) :=
  chain.map fun entry => (entry.1.path, entry.1.commonIds, entry.2)

/-- The known values of shared options after one more level. -/
def gather (ids : List String) (known m : Matches) : Matches :=
  ids.foldl (fun known id =>
    match m.get? id with
    | some r => known.put (strongest (known.get? id) r)
    | none => known) known

theorem sharedValues_eq (ids : List String) (chain : Chain) :
    sharedValues ids chain = (chain.map (·.2)).foldl (gather ids) [] := by
  rw [List.foldl_map]
  rfl

theorem commonIds_eq (chain : Chain) : chain.commonIds = chain.trace.flatMap (·.2.1) := by
  rw [commonIds, trace, List.flatMap_map]

/-- What is shared between the levels depends on what they have in common and on their values alone. -/
theorem trace_shareValues (chain : Chain) :
    trace (shareValues chain.commonIds chain) = chain.trace.map fun entry =>
      (entry.1, entry.2.1, ((chain.trace.map (·.2.2)).foldl (gather (chain.trace.flatMap (·.2.1))) []).foldl
        (fun m r => m.put r) entry.2.2) := by
  rw [shareValues, sharedValues_eq, commonIds_eq]
  simp only [trace, List.map_map]
  rfl

end Args.Chain

/-- Alike commands read the same tokens with the same values, and refuse the same ones. -/
theorem readLevel_alike {n n' : Node H} {l l' : Level} (alike : n.Alike n') (shows : n.Shows l)
    (shows' : n'.Shows l') (aligned : l.Aligned l') (tokens : List RawText) (s : Scan) :
    (readLevel l tokens s).toOption.map Chain.trace =
      (readLevel l' tokens s).toOption.map Chain.trace := by
  induction tokens generalizing n n' l l' s with
  | nil =>
      have kin := alike.kin shows shows' aligned
      have common := aligned.commonIds (alike.passed shows shows' aligned)
      simp only [readLevel, toOption_bind, complete_kin kin]
      cases (complete l' false s).toOption with
      | none => rfl
      | some m => simp [Chain.trace, aligned.path, common, pure, Except.pure, Except.toOption]
  | cons t rest ih =>
      have kin := alike.kin shows shows' aligned
      have passed := alike.passed shows shows' aligned
      simp only [readLevel]
      cases entered : entered? l t s with
      | none =>
          have entered' : entered? l' t s = none := by
            have same := kin.entered? t s
            rw [entered] at same
            simpa using same.symm
          simp only [entered']
          have taken := takeToken_kin kin t rest s
          cases here : takeToken l t rest s <;> cases there : takeToken l' t rest s <;>
            simp only [here, there, Except.toOption, reduceCtorEq, Option.some.injEq] at taken
          · rfl
          · subst taken
            exact ih alike shows shows' aligned _
      | some c =>
          obtain ⟨name, child, text, found, rfl⟩ := shows.entered entered
          obtain ⟨child', found', alike'⟩ := alike.child found
          have there := kin.entered? t s
          rw [entered, Option.isSome_some, eq_comm, Option.isSome_iff_exists] at there
          obtain ⟨c', entered'⟩ := there
          obtain ⟨name', other, text', inside, rfl⟩ := shows'.entered entered'
          obtain rfl : name = name' := Option.some.inj (text.symm.trans text')
          obtain rfl : child' = other := Option.some.inj (found'.symm.trans inside)
          have args : (child.command name).args = (child'.command name).args := by
            rw [Node.command, Node.command, alike'.claim]
          have below := ih alike' (Node.shows_enter child name l) (Node.shows_enter child' name l')
            (aligned.enter passed rfl args) .start
          simp only [entered', toOption_bind, complete_kin kin]
          cases here : readLevel (l.enter (child.command name)) rest .start <;>
            cases there : readLevel (l'.enter (child'.command name)) rest .start <;>
            simp only [here, there, Except.toOption, Option.map_none, Option.map_some, reduceCtorEq,
              Option.some.injEq] at below
          · rfl
          · cases complete l' true s with
            | error e => rfl
            | ok m =>
                simp only [Except.toOption, Option.bind_some, pure, Except.pure, Option.map_some,
                  Chain.trace, List.map_cons, aligned.path, aligned.commonIds passed]
                exact congrArg (fun rest => some ((l'.path, l'.commonIds, m) :: rest)) below

namespace Tree

/-- The trees take the same options and have the same commands with the same claims. -/
structure Alike (t t' : Tree H) : Prop where
  root : t.root.Alike t'.root
  version : t.version = t'.version
  globals : t.globals = t'.globals

theorem Alike.selected {t t' : Tree H} (alike : t.Alike t') (unclaimed : t.root.claim = none)
    {calledAs : Option String} {tokens : List RawText} {chain : Chain}
    (selected : t.interface.parse calledAs tokens = .selected chain) :
    ∃ chain', t'.interface.parse calledAs tokens = .selected chain' ∧ chain.trace = chain'.trace := by
  obtain ⟨read, done, rfl⟩ := parse_eq_selected_iff.mp selected
  have same := readLevel_alike alike.root (Node.shows_level t unclaimed calledAs)
    (Node.shows_level t' (alike.root.claim.symm.trans unclaimed) calledAs)
    (aligned_level alike.version alike.globals calledAs) tokens .start
  rw [done, eq_comm] at same
  obtain ⟨read', done', trace⟩ := Option.map_eq_some_iff.mp same
  refine ⟨_, parse_eq_selected_iff.mpr ⟨read', toOption_eq_some_iff.mp done', rfl⟩, ?_⟩
  rw [Chain.trace_shareValues, Chain.trace_shareValues, trace]

/-- Alike trees select the same commands with the same values. -/
theorem Alike.route {t t' : Tree H} (alike : t.Alike t') (unclaimed : t.root.claim = none)
    {argv : List RawText} {i : Invocation H} (selected : t.route argv = .ok (.invocation i)) :
    t'.route argv = .ok (.invocation i) := by
  obtain ⟨chain, level, n, outcome, last, path, reached, handler⟩ :=
    (route_eq_invocation_iff unclaimed).mp selected
  obtain ⟨chain', outcome', trace⟩ := alike.selected unclaimed outcome
  have lasts := congrArg List.getLast? trace
  simp only [Chain.trace, List.getLast?_map, last, Option.map_some] at lasts
  obtain ⟨⟨level', values⟩, last', same⟩ := Option.map_eq_some_iff.mp lasts.symm
  simp only [Prod.mk.injEq] at same
  obtain ⟨samePath, -, rfl⟩ := same
  have there := alike.root.commands i.path
  rw [reached, Option.isSome_some, eq_comm, Option.isSome_iff_exists] at there
  obtain ⟨n', reached'⟩ := there
  have claims := alike.root.claims i.path
  simp only [Node.claimAt, reached, reached', Option.bind_some] at claims
  refine (route_eq_invocation_iff (alike.root.claim.symm.trans unclaimed)).mpr
    ⟨chain', level', n', outcome', last', samePath.trans path, reached', ?_⟩
  rw [Node.handler?, ← claims]
  exact handler

/-- Trees that hold the same offers have the same commands with the same claims. -/
theorem Holds.alike {t t' : Tree H} {xs ys : List (Offer H)} (holds : t.Holds xs) (holds' : t'.Holds ys)
    (same : ∀ x, x ∈ xs ↔ x ∈ ys) : t.root.Alike t'.root where
  claims := by
    intro p
    apply Option.ext
    intro c
    refine (holds.claims p c).trans (Iff.trans ?_ (holds'.claims p c).symm)
    simp only [same]
  commands := by
    intro p
    rw [Bool.eq_iff_iff, holds.commands, holds'.commands]
    simp only [same]

end Tree

end ChainRelay
