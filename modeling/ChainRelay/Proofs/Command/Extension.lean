import ChainRelay.Proofs.Args.Dashes
import ChainRelay.Proofs.Args.Entrances
import ChainRelay.Proofs.Command.Nearest
import ChainRelay.Proofs.Command.Order
import ChainRelay.Proofs.Command.Widening

/-! # Trees that hold more

A tree that takes further fragments still reads what it read before, as far as the new arguments can be left
out and no value for a place becomes the name of a command.
-/

namespace ChainRelay

open Args

variable {H : Type u}

namespace Node

/-- All that is below the first command is below the second one, with the same claims. -/
structure Within (n n' : Node H) : Prop where
  claims : ∀ p c, n.claimAt p = some c → n'.claimAt p = some c
  commands : ∀ p, (n.get? p).isSome → (n'.get? p).isSome

theorem Within.child {n n' child : Node H} (within : n.Within n') {name : String}
    (found : n.child? name = some child) : ∃ child', n'.child? name = some child' ∧ child.Within child' := by
  have there := within.commands [name]
  rw [get?_singleton, get?_singleton, found] at there
  obtain ⟨child', found'⟩ := Option.isSome_iff_exists.mp (there rfl)
  refine ⟨child', found', ?_, ?_⟩
  · intro p
    simpa only [claimAt_cons, found, found', Option.bind_some] using within.claims (name :: p)
  · intro p
    simpa only [get?_cons, found, found', Option.bind_some] using within.commands (name :: p)

/-- The arguments that a command declares and passes on to those below it. -/
def passedOn (n : Node H) : List ArgSpec :=
  ((n.claim.map (·.args)).getD []).filter (·.passedOn)

/-- The arguments that the commands on the way to a path, and the one there, pass on to those below them. -/
def passedTo : CommandPath → Node H → List ArgSpec
  | [], n => n.passedOn
  | name :: rest, n => n.passedOn ++ ((n.child? name).map (passedTo rest)).getD []

theorem passedTo_cons {n child : Node H} {name : String} (found : n.child? name = some child) (rest : CommandPath) :
    n.passedTo (name :: rest) = n.passedOn ++ child.passedTo rest := by
  rw [passedTo, found]
  rfl

theorem passedOn_unclaimed {n : Node H} (unclaimed : n.claim = none) : n.passedOn = [] := by
  rw [passedOn, unclaimed]
  rfl

theorem passedOn_eq_nil {n : Node H} (kept : ∀ c, n.claim = some c → ∀ a ∈ c.args, a.passedOn = false) :
    n.passedOn = [] := by
  cases claimed : n.claim with
  | none => exact passedOn_unclaimed claimed
  | some c =>
      rw [passedOn, claimed, List.filter_eq_nil_iff]
      simpa using kept c claimed

/-- Where no claim on the way passes anything on, nothing is passed to the path. -/
theorem passedTo_eq_nil {n : Node H} {p : CommandPath}
    (kept : ∀ q c, q <+: p → n.claimAt q = some c → ∀ a ∈ c.args, a.passedOn = false) : n.passedTo p = [] := by
  have here {n : Node H} {p : CommandPath}
      (kept : ∀ q c, q <+: p → n.claimAt q = some c → ∀ a ∈ c.args, a.passedOn = false) : n.passedOn = [] :=
    passedOn_eq_nil fun c => kept [] c List.nil_prefix
  induction p generalizing n with
  | nil => exact here kept
  | cons name rest ih =>
      rw [passedTo, here kept, List.nil_append]
      cases found : n.child? name with
      | none => rfl
      | some child => exact ih (forall_claims_enter found kept)

theorem Shows.passed {n : Node H} {l : Level} (shows : n.Shows l) :
    l.passed.map (·.2) = n.passedOn ++ l.inherited.map (·.2) := by
  have own : ((ranked l.own).filter (·.2.passedOn)).map (·.2) = n.passedOn := by
    rw [passedOn, ← shows.own]
    conv => rhs; rw [← map_snd_rankedFrom 0 l.own, List.filter_map]
    rfl
  rw [Level.passed, List.map_append, own]

/-- A command has from those above it nothing that is not passed on. -/
theorem Shows.inherited_enter {n : Node H} {l : Level} (shows : n.Shows l) (c : Command) :
    (l.enter c).inherited.map (·.2) ⊆ n.passedOn ++ l.inherited.map (·.2) := by
  rw [← shows.passed]
  exact List.map_subset _ (List.filter_subset_self _)

/-- What is new below the second command does not get in the way of a command line, and has none of some ids. -/
structure Undisturbed (ids : List String) (n n' : Node H) (l : Level) (tokens : List RawText) (s : Scan) :
    Prop where
  within : n.Within n'
  undashed : n'.Undashed
  apart : ∀ p c, n'.claimAt p = some c → ∀ a ∈ c.args, ∀ g ∈ l.shared, a.Apart g
  plain : ∀ g ∈ l.shared, g.Plain
  stopping : ∀ a ∈ l.standard, a = helpOption ∨ a = versionOption
  typed : s.Typed l.Receives
  /-- Groups on the way get no arguments but those that go unnoticed. -/
  groups : ∀ p c, p <+: (entrances l tokens s).map (·.1) → n.claimAt p = none → n'.claimAt p = some c →
    Unnoticed c.args (n.passedTo p ++ l.inherited.map (·.2)) ∧ ∀ a ∈ c.args, a.id ∉ ids
  /-- No value for a place is the name of a new command. -/
  unplaced : ∀ q name, (l.path ++ q, RawText.ofString name) ∈ placed l tokens s →
    (n'.get? (q ++ [name])).isSome → (n.get? (q ++ [name])).isSome
  /-- Where values are read for places, groups get no places. -/
  places : ∀ q v c, (l.path ++ q, v) ∈ placed l tokens s → n.claimAt q = none → n'.claimAt q = some c →
    ∀ a ∈ c.args, a.isPositional = false
  /-- The innermost command can run. -/
  runs : ∃ c, n.claimAt ((entrances l tokens s).map (·.1)) = some c ∧ c.handler.isSome

theorem dashToken?_ofString {name : String} (undashed : ¬isDashed name) :
    dashToken? (RawText.ofString name) = none := by
  apply dashToken?_of_word
  simpa [RawText.ofString, isDashed] using undashed

section Undisturbed

variable {ids : List String} {n n' : Node H} {l l' : Level} {tokens : List RawText} {s : Scan}

/-- A group gets no arguments but those that go unnoticed. -/
theorem Undisturbed.group (undisturbed : n.Undisturbed ids n' l tokens s) (shows' : n'.Shows l')
    (unclaimed : n.claim = none) : Unnoticed l'.own l.above ∧ ∀ a ∈ l'.own, a.id ∉ ids := by
  rw [shows'.own]
  cases claimed : n'.claim with
  | none => exact ⟨unnoticed_nil _, by simp⟩
  | some c =>
      obtain ⟨unnoticed, other⟩ := undisturbed.groups [] c List.nil_prefix unclaimed claimed
      rw [passedTo, passedOn_unclaimed unclaimed, List.nil_append] at unnoticed
      exact ⟨unnoticed.append_plain (undisturbed.apart [] c claimed) undisturbed.plain, other⟩

theorem Undisturbed.widens (undisturbed : n.Undisturbed ids n' l tokens s) (shows : n.Shows l)
    (shows' : n'.Shows l') (aligned : l.Aligned l') : l.Widens l' where
  aligned := aligned
  stopping := undisturbed.stopping
  own := by
    rw [shows.own, shows'.own]
    cases claimed : n.claim with
    | some c =>
        have claimed' : n'.claim = some c := undisturbed.within.claims [] c claimed
        exact .inl (by rw [claimed'])
    | none => exact .inr ⟨rfl, shows'.own ▸ (undisturbed.group shows' claimed).1⟩
  known := by
    intro t
    unfold namedChild?
    cases t.toString? with
    | none => exact id
    | some name =>
        rw [Option.bind_some, Option.bind_some, shows.child?, shows'.child?, Option.isSome_map, Option.isSome_map,
          ← get?_singleton, ← get?_singleton]
        exact undisturbed.within.commands [name]
  undashed := by
    intro t named
    unfold namedChild? at named
    cases text : t.toString? with
    | none => simp [text] at named
    | some name =>
        rw [RawText.toString?_eq_some_iff.mp text]
        apply dashToken?_ofString
        apply undisturbed.undashed [] name
        rw [text, Option.bind_some, shows'.child?, Option.isSome_map] at named
        rw [List.nil_append, get?_singleton]
        exact named

theorem Undisturbed.taken {t : RawText} {rest : List RawText} {s' : Scan}
    (undisturbed : n.Undisturbed ids n' l (t :: rest) s) (passed : entered? l t s = none)
    (taken : takeToken l t rest s = .ok s') : n.Undisturbed ids n' l rest s' where
  within := undisturbed.within
  undashed := undisturbed.undashed
  apart := undisturbed.apart
  plain := undisturbed.plain
  stopping := undisturbed.stopping
  typed := undisturbed.typed.takeToken taken
  groups := by
    rw [← entrances_taken passed taken]
    exact undisturbed.groups
  unplaced := by
    intro q name inside
    apply undisturbed.unplaced q name
    rw [placed_taken passed taken]
    exact List.mem_append_right _ inside
  places := by
    intro q v c inside
    apply undisturbed.places q v c
    rw [placed_taken passed taken]
    exact List.mem_append_right _ inside
  runs := by
    rw [← entrances_taken passed taken]
    exact undisturbed.runs

theorem Undisturbed.enter {t : RawText} {rest : List RawText} {child child' : Node H} {name : String}
    (undisturbed : n.Undisturbed ids n' l (t :: rest) s) (shows : n.Shows l)
    (entered : entered? l t s = some (child.command name)) (found : n.child? name = some child)
    (found' : n'.child? name = some child') (within : child.Within child') :
    child.Undisturbed ids child' (l.enter (child.command name)) rest .start := by
  have path : (entrances l (t :: rest) s).map (·.1) =
      name :: (entrances (l.enter (child.command name)) rest .start).map (·.1) := by
    rw [entrances_enter entered]
    rfl
  have below (p : CommandPath) : n.claimAt (name :: p) = child.claimAt p := by
    rw [claimAt_cons, found, Option.bind_some]
  have below' (p : CommandPath) : n'.claimAt (name :: p) = child'.claimAt p := by
    rw [claimAt_cons, found', Option.bind_some]
  have inside (q : CommandPath) (v : RawText)
      (member : ((l.enter (child.command name)).path ++ q, v) ∈
        placed (l.enter (child.command name)) rest .start) :
      (l.path ++ name :: q, v) ∈ placed l (t :: rest) s := by
    rw [placed_enter entered]
    simpa [Level.enter, command] using member
  exact
    { within
      undashed := undisturbed.undashed.child found'
      stopping := fun a member => .inl (List.mem_singleton.mp member)
      typed := typed_start _
      plain := fun g member => undisturbed.plain g (List.mem_filter.mp member).1
      apart := by
        intro p c claimed a member g shared
        exact undisturbed.apart (name :: p) c ((below' p).trans claimed) a member g (List.mem_filter.mp shared).1
      groups := by
        intro p c above unclaimed claimed
        have there : name :: p <+: (entrances l (t :: rest) s).map (·.1) := by
          rw [path]
          exact List.cons_prefix_cons.mpr ⟨rfl, above⟩
        obtain ⟨unnoticed, other⟩ :=
          undisturbed.groups (name :: p) c there ((below p).trans unclaimed) ((below' p).trans claimed)
        rw [passedTo_cons found] at unnoticed
        refine ⟨unnoticed.subset ?_, other⟩
        have inherited := shows.inherited_enter (child.command name)
        grind
      unplaced := by
        intro q other member there
        have old := undisturbed.unplaced (name :: q) other (inside q _ member)
        rw [List.cons_append, get?_cons, get?_cons, found, found'] at old
        exact old there
      places := by
        intro q v c member unclaimed claimed
        exact undisturbed.places (name :: q) v c (inside q v member) ((below q).trans unclaimed)
          ((below' q).trans claimed)
      runs := by
        obtain ⟨c, claimed, handled⟩ := undisturbed.runs
        rw [path, below] at claimed
        exact ⟨c, claimed, handled⟩ }

/-- No value for a place of this command is the name of a new command. -/
theorem Undisturbed.unplaced_here (undisturbed : n.Undisturbed ids n' l tokens s) (shows : n.Shows l)
    (shows' : n'.Shows l') (u : RawText) (inside : (l.path, u) ∈ placed l tokens s)
    (named : (namedChild? l' u).isSome) :
    (namedChild? l u).isSome := by
  unfold namedChild? at named ⊢
  cases text : u.toString? with
  | none => simp [text] at named
  | some name =>
      rw [text, Option.bind_some, shows'.child?, Option.isSome_map, ← get?_singleton] at named
      rw [Option.bind_some, shows.child?, Option.isSome_map, ← get?_singleton]
      apply undisturbed.unplaced [] name _ named
      rwa [List.append_nil, ← RawText.toString?_eq_some_iff.mp text]

/-- A command that reads a value for a place gets no further places. -/
theorem Undisturbed.positionals (undisturbed : n.Undisturbed ids n' l tokens s) (shows : n.Shows l)
    (shows' : n'.Shows l') (widens : l.Widens l') {v : RawText} (inside : (l.path, v) ∈ placed l tokens s) :
    l'.positionals = l.positionals := by
  cases claimed : n.claim with
  | some c =>
      have claimed' : n'.claim = some c := undisturbed.within.claims [] c claimed
      rw [Level.positionals, Level.positionals, widens.args_same (by rw [shows.own, shows'.own, claimed, claimed'])]
  | none =>
      apply widens.positionals
      intro _ a member
      rw [shows'.own] at member
      cases claimed' : n'.claim with
      | none => simp [claimed'] at member
      | some c =>
          apply undisturbed.places [] v c (by rwa [List.append_nil]) claimed claimed'
          simpa [claimed'] using member

/-- Below, both levels have the same from the commands above them. -/
theorem Undisturbed.aligned {t : RawText} {rest : List RawText} {child child' : Node H} {name : String}
    (undisturbed : n.Undisturbed ids n' l (t :: rest) s) (shows : n.Shows l) (widens : l.Widens l')
    (entered : entered? l t s = some (child.command name)) (found : n.child? name = some child)
    (found' : n'.child? name = some child') (within : child.Within child') :
    (l.enter (child.command name)).Aligned (l'.enter (child'.command name)) := by
  have same : (child.command name).name = (child'.command name).name := rfl
  apply widens.enter same
  cases claimed : child.claim with
  | some c =>
      have claimed' : child'.claim = some c := within.claims [] c claimed
      exact .inl (by simp only [command, claimed, claimed'])
  | none =>
      right
      refine ⟨by simp only [command, claimed, Option.map_none, Option.getD_none], ?_⟩
      cases claimed' : child'.claim with
      | none => simp [command, claimed']
      | some c =>
          have there : n'.claimAt [name] = some c := by
            rw [claimAt_cons, found']
            exact claimed'
          have group : n.claimAt [name] = none := by
            rw [claimAt_cons, found]
            exact claimed
          have above : [name] <+: (entrances l (t :: rest) s).map (·.1) := by
            rw [entrances_enter entered, List.map_cons, List.cons_prefix_cons]
            exact ⟨rfl, List.nil_prefix⟩
          have unnoticed := (undisturbed.groups [name] c above group there).1
          intro a member b from_
          have member : a ∈ c.args := by simpa [command, claimed'] using member
          rcases List.mem_append.mp from_ with passed | shared
          · rw [passedTo_cons found] at unnoticed
            rw [shows.passed] at passed
            exact (unnoticed.apart a member b (by grind)).1
          · exact (undisturbed.apart [name] c there a member b shared).1

theorem Undisturbed.complete (undisturbed : n.Undisturbed ids n' l tokens s) (shows : n.Shows l)
    (shows' : n'.Shows l') (widens : l.Widens l') {m : Matches} (done : Args.complete l true s = .ok m) :
    ∃ m', Args.complete l' true s = .ok m' ∧ ∀ id ∈ ids, m'.get? id = m.get? id := by
  cases claimed : n.claim with
  | some c =>
      have claimed' : n'.claim = some c := undisturbed.within.claims [] c claimed
      have same : l'.own = l.own := by rw [shows.own, shows'.own, claimed, claimed']
      exact ⟨m, complete_same (widens.args_same same) (.inl rfl) done, fun id member => rfl⟩
  | none =>
      obtain ⟨unnoticed, other⟩ := undisturbed.group shows' claimed
      have group : l.own = [] := by rw [shows.own, claimed, Option.map_none, Option.getD_none]
      obtain ⟨m', completed, same⟩ := complete_widens widens group unnoticed undisturbed.typed done
      exact ⟨m', completed, fun id member => same id fun a own here => other a own (here ▸ member)⟩

end Undisturbed

end Node

namespace Args.Chain

/-- The second chain has the same paths, the same values for some ids, and the same values in the end. The levels of
both have the same arguments in common with those below them. -/
inductive Covers (ids : List String) : Chain → Chain → Prop where
  | last {l l' : Level} {m : Matches} (path : l'.path = l.path) (common : l'.commonIds = l.commonIds) :
      Covers ids [(l, m)] [(l', m)]
  | above {l l' : Level} {m m' : Matches} {below below' : Chain} (path : l'.path = l.path)
      (common : l'.commonIds = l.commonIds) (same : ∀ id ∈ ids, m'.get? id = m.get? id)
      (rest : Covers ids below below') : Covers ids ((l, m) :: below) ((l', m') :: below')

end Args.Chain

namespace Node

/-- A name enters the command below wherever a name can be entered. -/
theorem Shows.enters {n child : Node H} {l l' : Level} (shows : n.Shows l') {t : RawText} {name : String}
    (text : t.toString? = some name) (found : n.child? name = some child) {s : Scan}
    (ready : (entered? l t s).isSome) : entered? l' t s = some (child.command name) := by
  unfold entered? at ready ⊢
  split at ready
  · rw [namedChild?, text, Option.bind_some, shows.child?, found, Option.map_some]
  · cases ready

/-- What is undisturbed is read with the same values for the ids and of the innermost command. -/
theorem Undisturbed.readLevel {ids : List String} {n n' : Node H} {l l' : Level} {tokens : List RawText} {s : Scan}
    (undisturbed : n.Undisturbed ids n' l tokens s) (shows : n.Shows l) (shows' : n'.Shows l')
    (aligned : l.Aligned l') {chain : Chain} (read : readLevel l tokens s = .ok chain) :
    ∃ chain', Args.readLevel l' tokens s = .ok chain' ∧ Chain.Covers ids chain chain' := by
  induction tokens generalizing n n' l l' s chain with
  | nil =>
      obtain ⟨m, completed, done⟩ := bind_eq_ok_iff.mp read
      cases done
      have widens := undisturbed.widens shows shows' aligned
      obtain ⟨c, claimed, handled⟩ := undisturbed.runs
      change n.claim = some c at claimed
      have claimed' : n'.claim = some c := undisturbed.within.claims [] c claimed
      have own : l'.own = l.own := by rw [shows.own, shows'.own, claimed, claimed']
      have stands : l'.needsChild = false := by
        rw [shows'.needsChild, needsChild, handler?, claimed', Option.bind_some,
          Option.isNone_eq_false_iff.mpr handled, Bool.and_false]
      have completed' := complete_same (widens.args_same own) (.inr stands) completed
      exact ⟨[(l', m)], bind_eq_ok_iff.mpr ⟨m, completed', rfl⟩,
        .last aligned.path.symm (aligned.commonIds widens.passed).symm⟩
  | cons t rest ih =>
      have widens := undisturbed.widens shows shows' aligned
      rw [Args.readLevel] at read ⊢
      cases entered : entered? l t s with
      | none =>
          simp only [entered] at read
          obtain ⟨s', taken, later⟩ := bind_eq_ok_iff.mp read
          obtain ⟨passed', taken'⟩ := widens.takeToken entered taken (undisturbed.unplaced_here shows shows')
            (undisturbed.positionals shows shows' widens)
          obtain ⟨chain', read', covers⟩ := ih (undisturbed.taken entered taken) shows shows' aligned later
          refine ⟨chain', ?_, covers⟩
          simp only [passed']
          exact bind_eq_ok_iff.mpr ⟨s', taken', read'⟩
      | some c =>
          obtain ⟨name, child, text, found, rfl⟩ := shows.entered entered
          obtain ⟨child', found', within⟩ := undisturbed.within.child found
          simp only [entered] at read
          obtain ⟨below, deeper, read⟩ := bind_eq_ok_iff.mp read
          obtain ⟨m, completed, done⟩ := bind_eq_ok_iff.mp read
          cases done
          obtain ⟨below', deeper', covers⟩ := ih (undisturbed.enter shows entered found found' within)
            (shows_enter child name l) (shows_enter child' name l')
            (undisturbed.aligned shows widens entered found found' within) deeper
          obtain ⟨m', completed', agree⟩ := undisturbed.complete shows shows' widens completed
          have entered' := shows'.enters text found' (l := l) (by rw [entered]; rfl)
          refine ⟨(l', m') :: below', ?_,
            .above aligned.path.symm (aligned.commonIds widens.passed).symm agree covers⟩
          simp only [entered']
          exact bind_eq_ok_iff.mpr ⟨below', deeper', bind_eq_ok_iff.mpr ⟨m', completed', rfl⟩⟩

/-- The arguments that levels have in common come from above or are passed on on the way. -/
theorem Shows.mem_commonIds {n : Node H} {l : Level} (shows : n.Shows l) {tokens : List RawText} {s : Scan}
    {chain : Chain} (read : Args.readLevel l tokens s = .ok chain) :
    ∀ id ∈ chain.commonIds,
      ∃ b ∈ n.passedTo ((entrances l tokens s).map (·.1)) ++ l.above, b.id = id := by
  have here {n : Node H} {l : Level} (shows : n.Shows l) (id : String) (member : id ∈ l.commonIds) :
      ∃ b ∈ n.passedOn ++ l.above, b.id = id := by
    have ids : l.commonIds = (n.passedOn ++ l.above).map (·.id) := by
      rw [Level.commonIds, Level.above, ← List.append_assoc, ← shows.passed, List.map_append, List.map_map]
      rfl
    exact List.mem_map.mp (ids ▸ member)
  induction tokens generalizing n l s chain with
  | nil =>
      obtain ⟨m, -, done⟩ := bind_eq_ok_iff.mp read
      cases done
      intro id member
      exact here shows id (by simpa [Chain.commonIds] using member)
  | cons t rest ih =>
      rw [Args.readLevel] at read
      cases entered : entered? l t s with
      | none =>
          simp only [entered] at read
          obtain ⟨s', taken, later⟩ := bind_eq_ok_iff.mp read
          rw [entrances_taken entered taken]
          exact ih shows later
      | some c =>
          obtain ⟨name, child, -, found, rfl⟩ := shows.entered entered
          simp only [entered] at read
          obtain ⟨below, deeper, read⟩ := bind_eq_ok_iff.mp read
          obtain ⟨m, -, done⟩ := bind_eq_ok_iff.mp read
          cases done
          intro id member
          rw [entrances_enter entered, List.map_cons]
          change ∃ b ∈ n.passedTo (name :: _) ++ l.above, b.id = id
          rw [passedTo_cons found]
          rcases List.mem_append.mp member with this | later
          · obtain ⟨b, inside, named⟩ := here shows id this
            exact ⟨b, by grind, named⟩
          · obtain ⟨b, inside, named⟩ := ih (shows_enter child name l) deeper id later
            have inherited := shows.inherited_enter (child.command name)
            have shared : (l.enter (child.command name)).shared ⊆ l.shared := List.filter_subset_self _
            refine ⟨b, ?_, named⟩
            simp only [Level.above] at inside ⊢
            grind

end Node

namespace Args.Chain

theorem gather_congr {options : List String} {m m' : Matches} (same : ∀ id ∈ options, m'.get? id = m.get? id)
    (known : Matches) : gather options known m' = gather options known m := by
  unfold gather
  induction options generalizing known with
  | nil => rfl
  | cons id rest ih =>
      obtain ⟨here, others⟩ := List.forall_mem_cons.mp same
      rw [List.foldl_cons, List.foldl_cons, here]
      exact ih others _

theorem Covers.sharedValues {ids : List String} {chain chain' : Chain} (covers : Covers ids chain chain') :
    sharedValues ids chain' = sharedValues ids chain := by
  rw [sharedValues_eq, sharedValues_eq]
  generalize ([] : Matches) = known
  induction covers generalizing known with
  | last path common => rfl
  | above path common same rest ih =>
      simp only [List.map_cons, List.foldl_cons] at ih ⊢
      rw [gather_congr same, ih]

theorem Covers.commonIds {ids : List String} {chain chain' : Chain} (covers : Covers ids chain chain') :
    chain'.commonIds = chain.commonIds := by
  induction covers with
  | last path common => simp only [Chain.commonIds, List.flatMap_cons, List.flatMap_nil, common]
  | above path common same rest ih =>
      simp only [Chain.commonIds, List.flatMap_cons, common] at ih ⊢
      rw [ih]

theorem Covers.getLast? {ids : List String} {chain chain' : Chain} (covers : Covers ids chain chain') :
    ∃ l l' m, chain.getLast? = some (l, m) ∧ chain'.getLast? = some (l', m) ∧ l'.path = l.path := by
  induction covers with
  | last path common => exact ⟨_, _, _, rfl, rfl, path⟩
  | above path common same rest ih =>
      obtain ⟨l, l', m, last, last', here⟩ := ih
      refine ⟨l, l', m, ?_, ?_, here⟩
      · rw [List.getLast?_cons, last, Option.getD_some]
      · rw [List.getLast?_cons, last', Option.getD_some]

/-- The innermost command has the same values also after the levels have shared some. -/
theorem Covers.shareValues {ids : List String} {chain chain' : Chain} (covers : Covers ids chain chain')
    {level : Level} {m : Matches} (last : (shareValues ids chain).getLast? = some (level, m)) :
    ∃ level', (Args.shareValues ids chain').getLast? = some (level', m) ∧ level'.path = level.path := by
  obtain ⟨l, l', values, here, here', path⟩ := covers.getLast?
  rw [Args.shareValues, List.getLast?_map, here, Option.map_some, Option.some.injEq, Prod.mk.injEq] at last
  obtain ⟨rfl, rfl⟩ := last
  refine ⟨l', ?_, path⟩
  rw [Args.shareValues, List.getLast?_map, here', Option.map_some, covers.sharedValues]

end Args.Chain

/-- Values for places are read only by commands that claim positional arguments or have some from above. -/
theorem Node.Shows.positional_of_placed {n : Node H} {l : Level} {tokens : List RawText} {s : Scan} (shows : n.Shows l)
    (options : ∀ a ∈ l.shared ++ l.standard, a.isPositional = false) {chain : Chain}
    (read : readLevel l tokens s = .ok chain) :
    ∀ entry ∈ placed l tokens s, ∃ q, entry.1 = l.path ++ q ∧ ∃ a, a.isPositional = true ∧
      (a ∈ n.passedTo q ++ l.inherited.map (·.2) ∨ ∃ c, n.claimAt q = some c ∧ a ∈ c.args) := by
  induction tokens generalizing n l s chain with
  | nil =>
      intro entry absent
      cases absent
  | cons t rest ih =>
      rw [readLevel] at read
      cases entered : entered? l t s with
      | none =>
          simp only [entered] at read
          obtain ⟨s', taken, later⟩ := bind_eq_ok_iff.mp read
          intro entry member
          rw [placed_taken entered taken] at member
          cases List.mem_append.mp member with
          | inr after => exact ih shows options later entry after
          | inl here =>
              split at here
              · next value =>
                  rw [takeToken_placed value] at taken
                  obtain ⟨a, inside, positional⟩ := exists_positional_of_takeValue taken
                  rw [List.mem_singleton.mp here]
                  refine ⟨[], (List.append_nil _).symm, a, positional, ?_⟩
                  rcases List.mem_append.mp inside with own | lent
                  · rw [shows.own] at own
                    cases claimed : n.claim with
                    | none => simp [claimed] at own
                    | some c => exact .inr ⟨c, claimed, by simpa [claimed] using own⟩
                  · rw [Level.lent, List.append_assoc, List.mem_append] at lent
                    have inherited := lent.resolve_right fun other => by simp [options a other] at positional
                    exact .inl (List.mem_append_right _ inherited)
              · cases here
      | some c =>
          obtain ⟨name, child, -, found, rfl⟩ := shows.entered entered
          simp only [entered] at read
          obtain ⟨below, deeper, -⟩ := bind_eq_ok_iff.mp read
          intro entry member
          rw [placed_enter entered] at member
          have options' : ∀ a ∈ (l.enter (child.command name)).shared ++ (l.enter (child.command name)).standard,
              a.isPositional = false := by
            intro a inside
            rcases List.mem_append.mp inside with shared | standard
            · exact options a (List.mem_append_left _ (List.mem_filter.mp shared).1)
            · exact List.mem_singleton.mp standard ▸ rfl
          obtain ⟨q, path, a, positional, from_⟩ := ih (shows_enter child name l) options' deeper entry member
          refine ⟨name :: q, by simpa [Level.enter, command] using path, a, positional, ?_⟩
          rw [passedTo_cons found, claimAt_cons, found, Option.bind_some]
          refine from_.imp_left fun passed => ?_
          have inherited := shows.inherited_enter (child.command name)
          grind

theorem Args.Interface.stopping_level (i : Interface) (calledAs : Option String) :
    ∀ a ∈ (i.level calledAs).standard, a = helpOption ∨ a = versionOption := by
  intro a member
  refine (List.mem_cons.mp member).imp_right fun version => ?_
  split at version
  · exact List.mem_singleton.mp version
  · cases version

namespace Tree

/-- The tokens of a command line that are read as values of positional arguments, each with the path of the
command. -/
def placed (t : Tree H) (argv : List RawText) : List (CommandPath × RawText) :=
  Args.placed (t.interface.level (calledAs? argv)) argv.tail .start

/-- A further fragment leaves alone what a command line selects, the command of a path. -/
structure Unaffected (t : Tree H) (argv : List RawText) (p : CommandPath) (f : Fragment H) : Prop where
  /-- At a group on the way the arguments go unnoticed beside those that it has from the commands above. -/
  unnoticed : f.path <+: p → Unnoticed f.args (t.root.passedTo f.path)
  /-- No command on the way passes on an argument of the same id. -/
  ids : f.path <+: p → ∀ a ∈ f.args, ∀ b ∈ t.root.passedTo p, a.id ≠ b.id
  /-- A group that reads values for places, which it has from above, gets no further places. -/
  places : ∀ v, (f.path, v) ∈ t.placed argv → ∀ a ∈ f.args, a.isPositional = false
  /-- No value for a place is the name of a new command. -/
  names : ∀ q word, q ++ [word] <+: f.path → (q, RawText.ofString word) ∈ t.placed argv →
    (t.root.get? (q ++ [word])).isSome

/-- A further fragment leaves alone whatever a command line selects. -/
structure Indifferent (t : Tree H) (f : Fragment H) : Prop where
  unnoticed : (t.root.get? f.path).isSome → Unnoticed f.args (t.root.passedTo f.path)
  ids : ∀ p, f.path <+: p → ∀ a ∈ f.args, ∀ b ∈ t.root.passedTo p, a.id ≠ b.id
  places : (∀ b ∈ t.root.passedTo f.path, b.isPositional = false) ∨ ∀ a ∈ f.args, a.isPositional = false
  names : ∀ q word, q ++ [word] <+: f.path → (t.root.get? (q ++ [word])).isSome ∨
    (∀ b ∈ t.root.passedTo q, b.isPositional = false) ∧
      ∀ c, t.claim? q = some c → ∀ a ∈ c.args, a.isPositional = false

theorem Unaffected.sealed {t : Tree H} {argv : List RawText} {p : CommandPath} {f : Fragment H}
    (unaffected : t.Unaffected argv p f) : t.sealed.Unaffected argv p f :=
  { unaffected with }

theorem Indifferent.sealed {t : Tree H} {f : Fragment H} (indifferent : t.Indifferent f) : t.sealed.Indifferent f :=
  { indifferent with }

section Grown

variable {t t' : Tree H} {xs ys : List (Offer H)} (grown : t.Grown xs)
include grown

/-- The commands that are entered are those on the path of the selected one. -/
theorem Grown.entered_eq {argv : List RawText} {i : Invocation H} (routed : t.route argv = .ok (.invocation i)) :
    (t.entered argv).map (·.1) = i.path := by
  obtain ⟨chain, level, selected, names, -⟩ := (grown.selects routed).entered
  obtain ⟨read, done, rfl⟩ := parse_eq_selected_iff.mp selected
  rw [shareValues, ← List.map_tail, List.map_map] at names
  have entered : ((t.entered argv).map (·.1)).map some = i.path.map some := by
    rw [List.map_map]
    exact (names_of_readLevel done).symm.trans names
  exact (List.map_inj_right fun _ _ => Option.some.inj).mp entered

/-- A value is read for a place of a command that claims positional arguments or has some from above. -/
theorem Grown.positional_of_placed (options : ∀ g ∈ t.globals, g.isPositional = false) {argv : List RawText}
    {i : Invocation H} (routed : t.route argv = .ok (.invocation i)) {q : CommandPath} {v : RawText}
    (inside : (q, v) ∈ t.placed argv) : ∃ a, a.isPositional = true ∧
      (a ∈ t.root.passedTo q ∨ ∃ c, t.claim? q = some c ∧ a ∈ c.args) := by
  obtain ⟨chain, level, selected, -⟩ := (grown.selects routed).entered
  obtain ⟨read, done, -⟩ := parse_eq_selected_iff.mp selected
  have shows := Node.shows_level t grown.unclaimed (calledAs? argv)
  obtain ⟨q', path, a, positional, from_⟩ := shows.positional_of_placed (by
    intro a member
    rcases List.mem_append.mp member with shared | standard
    · exact options a shared
    · rcases Interface.stopping_level t.interface _ a standard with rfl | rfl <;> rfl) done _ inside
  obtain rfl : q = q' := path
  exact ⟨a, positional, from_.imp_left fun passed => (List.append_nil (t.root.passedTo q)) ▸ passed⟩

theorem Grown.claim?_eq_none {p : CommandPath} (unclaimed : t.claim? p = none) : p ∉ xs.map Offer.path := by
  intro inside
  have there := (grown.holds.contains_iff p).mpr inside
  rw [contains, unclaimed] at there
  cases there

/-- What the levels have in common are the options of the tree and what is passed to the selected command. -/
theorem Grown.mem_commonIds {argv : List RawText} {i : Invocation H} (routed : t.route argv = .ok (.invocation i))
    {chain : Chain} (done : readLevel (t.interface.level (calledAs? argv)) argv.tail .start = .ok chain) :
    ∀ id ∈ chain.commonIds, ∃ b ∈ t.root.passedTo i.path ++ t.globals, b.id = id := by
  rw [← grown.entered_eq routed]
  exact (Node.shows_level t grown.unclaimed _).mem_commonIds done

theorem Grown.unaffected (options : ∀ g ∈ t.globals, g.isPositional = false) {f : Fragment H}
    (indifferent : t.Indifferent f) (new : f.path ∉ xs.map Offer.path) {argv : List RawText} {i : Invocation H}
    (routed : t.route argv = .ok (.invocation i)) : t.Unaffected argv i.path f where
  unnoticed := by
    intro above
    apply indifferent.unnoticed
    obtain ⟨x, member, path, -⟩ := (grown.selects routed).claimed
    exact (grown.holds.commands f.path).mpr (.inr ⟨x, member, path ▸ above⟩)
  ids := indifferent.ids i.path
  places := by
    intro v inside
    refine indifferent.places.resolve_left fun lent => ?_
    obtain ⟨a, positional, passed | ⟨c, claimed, -⟩⟩ := grown.positional_of_placed options routed inside
    · simp [lent a passed] at positional
    · exact new ((grown.holds.contains_iff f.path).mp (by rw [contains, claimed, Option.isSome_some]))
  names := by
    intro q word above inside
    refine (indifferent.names q word above).resolve_right fun free => ?_
    obtain ⟨lent, own⟩ := free
    obtain ⟨a, positional, passed | ⟨c, claimed, argument⟩⟩ := grown.positional_of_placed options routed inside
    · simp [lent a passed] at positional
    · simp [own c claimed a argument] at positional

theorem Grown.within (grown' : t'.Grown ys) (more : ∀ x ∈ xs, x ∈ ys) : t.root.Within t'.root where
  claims := by
    intro p c claimed
    obtain ⟨x, member, path, claim⟩ := (grown.holds.claims p c).mp claimed
    exact (grown'.holds.claims p c).mpr ⟨x, more x member, path, claim⟩
  commands := by
    intro p there
    rw [grown.holds.commands] at there
    rw [grown'.holds.commands]
    cases there with
    | inl root => exact .inl root
    | inr leads =>
        obtain ⟨x, member, above⟩ := leads
        exact .inr ⟨x, more x member, above⟩

section More

variable (grown' : t'.Grown ys) (more : ∀ x ∈ xs, x ∈ ys) {argv : List RawText} {i : Invocation H}
  (routed : t.route argv = .ok (.invocation i))
  (unaffected : ∀ y ∈ ys, y.path ∉ xs.map Offer.path → t.Unaffected argv i.path y.2)
include grown' unaffected

/-- The claims of groups are new. -/
theorem Grown.unaffected_of_unclaimed {p : CommandPath} {c : Claim H} (unclaimed : t.root.claimAt p = none)
    (claimed : t'.root.claimAt p = some c) : ∃ y ∈ ys, y.path = p ∧ c = y.claim ∧ t.Unaffected argv i.path y.2 := by
  obtain ⟨y, member, rfl, rfl⟩ := (grown'.holds.claims p c).mp claimed
  exact ⟨y, member, rfl, rfl, unaffected y member (grown.claim?_eq_none unclaimed)⟩

include more routed

/-- Fragments that leave the selected command alone do not get in the way of the command line. -/
theorem Grown.undisturbed (globals : t'.globals = t.globals) (plain : ∀ g ∈ t.globals, g.Plain)
    {c : Claim H} (claimed : t.root.claimAt i.path = some c) (handled : c.handler.isSome) {chain : Chain}
    (done : readLevel (t.interface.level (calledAs? argv)) argv.tail .start = .ok chain) :
    t.root.Undisturbed chain.commonIds t'.root (t.interface.level (calledAs? argv)) argv.tail .start where
  within := grown.within grown' more
  undashed := grown'.undashed
  plain := plain
  typed := typed_start _
  stopping := t.interface.stopping_level _
  apart p c claimed a inside g shared := grown'.apart_of_claim claimed a inside g (globals ▸ shared)
  groups := by
    intro p c above unclaimed claimed
    obtain ⟨y, member, rfl, rfl, fits⟩ := grown.unaffected_of_unclaimed grown' unaffected unclaimed claimed
    have above : y.path <+: i.path := grown.entered_eq routed ▸ above
    refine ⟨(List.append_nil (t.root.passedTo y.path)).symm ▸ fits.unnoticed above, ?_⟩
    intro a inside common
    obtain ⟨b, from_, named⟩ := grown.mem_commonIds routed done a.id common
    rcases List.mem_append.mp from_ with passed | shared
    · exact fits.ids above a inside b passed named.symm
    · exact (grown'.apart_of_claim claimed a inside b (globals ▸ shared)).1 named.symm
  places := by
    intro q v c inside unclaimed claimed
    obtain ⟨y, -, rfl, rfl, fits⟩ := grown.unaffected_of_unclaimed grown' unaffected unclaimed claimed
    exact fits.places v inside
  unplaced := by
    intro q name inside there
    rw [grown'.holds.commands] at there
    obtain ⟨y, member, above⟩ := there.resolve_left (by simp)
    by_cases old : y.path ∈ xs.map Offer.path
    · obtain ⟨x, old, same⟩ := List.mem_map.mp old
      exact (grown.holds.commands _).mpr (.inr ⟨x, old, same ▸ above⟩)
    · exact (unaffected y member old).names q name above inside
  runs := by
    have names : (entrances (t.interface.level (calledAs? argv)) argv.tail .start).map (·.1) = i.path :=
      grown.entered_eq routed
    rw [names]
    exact ⟨c, claimed, handled⟩

/-- A tree that has taken further fragments selects the same command with the same values. -/
theorem Grown.route_of_more (globals : t'.globals = t.globals) (version : t'.version = t.version)
    (plain : ∀ g ∈ t.globals, g.Plain) : t'.route argv = .ok (.invocation i) := by
  obtain ⟨chain, level, n, selected, last, path, reached, runs⟩ :=
    (route_eq_invocation_iff grown.unclaimed).mp routed
  obtain ⟨read, done, rfl⟩ := parse_eq_selected_iff.mp selected
  obtain ⟨c, claimed, handled⟩ := Option.bind_eq_some_iff.mp runs
  have claimed : t.root.claimAt i.path = some c := by
    rw [Node.claimAt, reached]
    exact claimed
  have within := grown.within grown' more
  have undisturbed := grown.undisturbed grown' more routed unaffected globals plain claimed (by rw [handled]; rfl) done
  obtain ⟨chain', read', covers⟩ := undisturbed.readLevel (Node.shows_level t grown.unclaimed (calledAs? argv))
    (Node.shows_level t' grown'.unclaimed (calledAs? argv)) (aligned_level version.symm globals.symm _) done
  obtain ⟨level', last', path'⟩ := covers.shareValues last
  obtain ⟨n', reached'⟩ := Option.isSome_iff_exists.mp (within.commands i.path (by rw [reached]; rfl))
  have claimed' := within.claims i.path c claimed
  rw [Node.claimAt, reached', Option.bind_some] at claimed'
  refine (route_eq_invocation_iff grown'.unclaimed).mpr
    ⟨_, level', n', parse_eq_selected_iff.mpr ⟨chain', read', rfl⟩, ?_, path'.trans path, reached', ?_⟩
  · rw [covers.commonIds]
    exact last'
  · rw [Node.handler?, claimed']
    exact handled

end More

end Grown

end Tree

end ChainRelay
