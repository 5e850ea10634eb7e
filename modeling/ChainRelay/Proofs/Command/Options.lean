import ChainRelay.Proofs.Command.Places

/-! # Options behind the names of a command

The names of a command may be followed by its options, each with its value in the token behind it. The command is then
selected with these values, if everything else that is asked for on the way can be left out.
-/

namespace ChainRelay

open Args

namespace Args

theorem ArgSpec.Apart.symm {a b : ArgSpec} (apart : a.Apart b) : b.Apart a := by
  refine ⟨apart.1.symm, fun long named same => ?_, fun short named same => ?_⟩
  · exact apart.2.1 long same named
  · exact apart.2.2 short same named

theorem ArgSpec.Idle.omissible {a : ArgSpec} (idle : a.Idle) : a.Omissible := by
  refine omissible_of_optional idle.optional (fun v value => ?_) idle.default
  rw [standIn?, idle.unset] at value
  cases value

/-- A value for an option, with the long name of the option. -/
structure Setting where
  arg : ArgSpec
  flag : String
  value : String

namespace Setting

/-- The name of the option and its value in two tokens. -/
def tokens (o : Setting) : List RawText :=
  [RawText.ofString ("--" ++ o.flag), RawText.ofString o.value]

/-- What is received from the tokens. -/
abbrev received (o : Setting) : Received :=
  o.arg.received o.value

/-- The option takes the value, which looks like no option itself. -/
structure Sound (o : Setting) : Prop where
  given : o.arg.Given o.flag o.value
  named : o.flag ≠ ""
  undashed : ¬isDashed o.value

end Setting

theorem dashToken?_long {flag : String} (named : flag ≠ "") (plain : '=' ∉ flag.toList) :
    dashToken? (RawText.ofString ("--" ++ flag)) = some (.long (RawText.ofString flag) none) := by
  have units : RawText.ofString ("--" ++ flag) = .char '-' :: .char '-' :: flag.toList.map .char := by
    simp [RawText.ofString]
  have split := splitOnce_eq_none_iff.mpr plain
  obtain ⟨c, rest, chars⟩ := List.exists_cons_of_ne_nil (mt String.toList_eq_nil_iff.mp named)
  rw [units, RawText.ofString]
  rw [chars, List.map_cons] at split ⊢
  simp only [dashToken?, split]

/-- When what is pending has been received, the scan has these values. The next token may be anything. -/
structure Scan.Holds (s : Scan) (l : Level) (m : Matches) : Prop where
  settled : settled l s = .ok { s with matched := m, pending := none }
  expecting : s.expecting = .anything
  trailing : s.trailing = false

theorem holds_start (l : Level) : Scan.start.Holds l [] :=
  ⟨rfl, rfl, rfl⟩

/-- The scan after the value of an option. -/
def Scan.pend (s : Scan) (m : Matches) (o : Setting) : Scan :=
  { s with matched := m, pending := some ⟨o.arg, some (RawText.ofString o.value)⟩ }

section Reading

variable {l : Level} {s : Scan} {m : Matches} {o : Setting} (holds : s.Holds l m) (sound : o.Sound)
include holds sound

theorem Scan.Holds.pend (new : m.get? o.arg.id = none) : (s.pend m o).Holds l (m ++ [o.received]) where
  settled := by
    have received : receive .commandLine o.arg (some (RawText.ofString o.value)) m = (m ++ [o.received], none) := by
      rw [receive_absent new]
      simp [holdValue, sound.given.action, sound.given.admitted, ArgSpec.received, Except.map]
    rw [settled_some rfl]
    simp only [Scan.pend, received]
  expecting := holds.expecting
  trailing := holds.trailing

/-- An option and its value are read in two steps. -/
theorem Scan.Holds.readLevel_setting (found : l.long? o.flag = some o.arg)
    (unnamed : namedChild? l (RawText.ofString ("--" ++ o.flag)) = none) (rest : List RawText) :
    readLevel l (o.tokens ++ rest) s = readLevel l rest (s.pend m o) := by
  have here : (RawText.ofString o.flag).toString?.bind l.long? = some o.arg := by
    rw [RawText.toString?_ofString]
    exact found
  have passed : entered? l (RawText.ofString ("--" ++ o.flag)) s = none := by
    simp only [entered?, holds.trailing, holds.expecting, unnamed]
  have awaits : takeToken l (RawText.ofString ("--" ++ o.flag)) (RawText.ofString o.value :: rest) s =
      .ok { s with matched := m, pending := some ⟨o.arg, none⟩, expecting := .optionValue o.arg } := by
    simp only [takeToken, holds.trailing, Bool.false_eq_true, if_false, dashToken?_long sound.named sound.given.plain,
      takeLong, here, takeOption, sound.given.action, holds.settled]
    rfl
  rw [Setting.tokens, List.cons_append, List.cons_append, List.nil_append, readLevel]
  simp only [passed, awaits]
  -- The token behind the name is its value, whatever commands there are.
  change readLevel l (RawText.ofString o.value :: rest) _ = _
  rw [readLevel]
  simp only [entered?, takeToken, holds.trailing, Bool.false_eq_true, if_false,
    Node.dashToken?_ofString sound.undashed, takeOptionValue]
  rw [Scan.pend, ← holds.expecting, ← holds.trailing]
  rfl

end Reading

/-- The settings are for different options of the level. -/
structure Level.Accepts (l : Level) (os : List Setting) : Prop where
  sound : ∀ o ∈ os, o.Sound
  sole : ∀ o ∈ os, l.Sole o.arg
  distinct : (os.map (·.arg.id)).Nodup

section Accepts

variable {l : Level} {os : List Setting} {s : Scan} {m : Matches}

theorem Scan.Holds.readLevel_settings (holds : s.Holds l m) (accepts : l.Accepts os)
    (unnamed : ∀ token, isDashed token → namedChild? l (RawText.ofString token) = none)
    (new : ∀ o ∈ os, m.get? o.arg.id = none) :
    ∃ s', s'.Holds l (m ++ os.map (·.received)) ∧
      readLevel l (os.flatMap (·.tokens)) s = readLevel l [] s' := by
  induction os generalizing s m with
  | nil => exact ⟨s, by simpa using holds, rfl⟩
  | cons o rest ih =>
      obtain ⟨sound, sounds⟩ := List.forall_mem_cons.mp accepts.sound
      obtain ⟨sole, soles⟩ := List.forall_mem_cons.mp accepts.sole
      obtain ⟨apart, distinct⟩ := List.nodup_cons.mp accepts.distinct
      obtain ⟨free, others⟩ := List.forall_mem_cons.mp new
      have later : ∀ o' ∈ rest, Matches.get? o'.arg.id (m ++ [o.received]) = none := by
        intro o' member
        have different : o.arg.id ≠ o'.arg.id := fun same => apart (List.mem_map.mpr ⟨o', member, same.symm⟩)
        have absent := others o' member
        rw [Matches.get?_eq_none_iff] at absent ⊢
        rw [List.forall_mem_append, List.forall_mem_singleton]
        exact ⟨absent, different⟩
      obtain ⟨s', holds', read⟩ := ih (holds.pend sound free) ⟨sounds, soles, distinct⟩ later
      refine ⟨s', by simpa using holds', ?_⟩
      rw [List.flatMap_cons, holds.readLevel_setting sound (sole.long? sound.given.long.long)
        (unnamed _ (by simp [isDashed])), read]

/-- A level is completed if what it has not received can be left out. -/
theorem Scan.Holds.complete (holds : s.Holds l m) (explicit : m.Explicit) (plain : ∀ a ∈ l.args, a.Plain)
    (left : ∀ a ∈ l.args, (m.get? a.id).isSome ∨ a.Omissible) {hasChild : Bool}
    (stands : hasChild = true ∨ l.needsChild = false) :
    ∃ m₁ m₂, complete l hasChild s = .ok m₂ ∧ Fills .environment standIn? l.args m m₁ ∧
      Fills .default defaultValue? l.args m₁ m₂ := by
  obtain ⟨m₁, environment⟩ : ∃ m₁, Fills .environment standIn? l.args m m₁ :=
    fills_of_admitted fun a member v value => (left a member).imp_right fun omissible => omissible.environment v value
  have kept {a : ArgSpec} (there : (m.get? a.id).isSome) : (m₁.get? a.id).isSome := by
    obtain ⟨r, found⟩ := Option.isSome_iff_exists.mp there
    rw [Matches.get?_of_prefix environment.isPrefix found, Option.isSome_some]
  obtain ⟨m₂, defaults⟩ : ∃ m₂, Fills .default defaultValue? l.args m₁ m₂ := by
    apply fills_of_admitted
    intro a member v value
    rcases left a member with there | omissible
    · exact .inl (kept there)
    · cases stands : standIn? a with
      | none => exact .inr (omissible.default stands v value)
      | some w => exact .inl (environment.present a member (by rw [stands]; rfl))
  refine ⟨m₁, m₂, complete_eq_ok_iff.mpr ⟨_, m₁, holds.settled, environment, defaults, stands,
    agree_of_plain (fun a member _ => plain a member) ?_⟩, environment, defaults⟩
  intro a member required
  have there : (m₁.get? a.id).isSome := by
    rcases left a member with there | omissible
    · exact kept there
    · exact environment.present a member (omissible.given required)
  obtain ⟨r, held, named⟩ := Matches.isSome_get?_iff.mp there
  exact Matches.mem_explicitIds.mpr
    ⟨r, defaults.isPrefix.subset held, explicit.fills environment r held, named⟩

theorem get?_received (distinct : (os.map (·.arg.id)).Nodup) {o : Setting} (member : o ∈ os) :
    Matches.get? o.arg.id (os.map (·.received)) = some o.received := by
  induction os with
  | nil => cases member
  | cons first rest ih =>
      obtain ⟨apart, distinct'⟩ := List.nodup_cons.mp distinct
      rw [List.map_cons, Matches.get?_cons]
      rcases List.mem_cons.mp member with rfl | later
      · exact if_pos rfl
      · have different : first.arg.id ≠ o.arg.id := fun same => apart (List.mem_map.mpr ⟨o, later, same.symm⟩)
        exact (if_neg different).trans (ih distinct' later)

theorem get?_received_none {id : String} (absent : ∀ o ∈ os, o.arg.id ≠ id) :
    Matches.get? id (os.map (·.received)) = none := by
  rw [Matches.get?_eq_none_iff]
  intro r member
  obtain ⟨o, inside, rfl⟩ := List.mem_map.mp member
  exact absent o inside

/-- The settings have been received, and what is neither set nor in the environment has its default. -/
structure Matches.Reflect (m : Matches) (os : List Setting) (args : List ArgSpec) : Prop where
  given : ∀ o ∈ os, m.get? o.arg.id = some o.received
  default : ∀ a ∈ args, (∀ o ∈ os, o.arg.id ≠ a.id) → standIn? a = none → ∀ v, defaultValue? a = some v →
    ∀ held, holdValue a none (some v) = .ok held →
      m.get? a.id = some { id := a.id, kind := a.kind, source := .default, held }

/-- The options of a level are read to the end, and nothing else. -/
theorem Level.Accepts.readLevel (accepts : l.Accepts os)
    (unnamed : ∀ token, isDashed token → namedChild? l (RawText.ofString token) = none)
    (plain : ∀ a ∈ l.args, a.Plain) (left : ∀ a ∈ l.args, (∃ o ∈ os, o.arg = a) ∨ a.Omissible)
    (stands : l.needsChild = false) {args : List ArgSpec} (sole : ∀ a ∈ args, l.Sole a) :
    ∃ m, readLevel l (os.flatMap (·.tokens)) .start = .ok [(l, m)] ∧ m.Reflect os args := by
  obtain ⟨s, holds, read⟩ := (holds_start l).readLevel_settings accepts unnamed fun o member => rfl
  rw [List.nil_append] at holds
  have explicit : Matches.Explicit (os.map (·.received)) := by
    intro r member
    obtain ⟨o, inside, rfl⟩ := List.mem_map.mp member
    simp [ArgSpec.received]
  have there : ∀ a ∈ l.args, (Matches.get? a.id (os.map (·.received))).isSome ∨ a.Omissible := by
    intro a member
    refine (left a member).imp_left ?_
    rintro ⟨o, inside, rfl⟩
    rw [get?_received accepts.distinct inside, Option.isSome_some]
  obtain ⟨m₁, m₂, done, environment, defaults⟩ := holds.complete explicit plain there (.inr stands)
  refine ⟨m₂, ?_, ?_, ?_⟩
  · rw [read, Args.readLevel, done]
    rfl
  · intro o member
    exact Matches.get?_of_prefix (environment.isPrefix.trans defaults.isPrefix) (get?_received accepts.distinct member)
  · intro a member unset absent v value held admitted
    have empty : m₁.get? a.id = none := by
      rw [Matches.get?_eq_none_iff]
      intro q inside same
      simpa [absent] using ((sole a member).filled environment (get?_received_none unset) q inside same).2
    obtain ⟨held', admitted', found⟩ :=
      defaults.filled (sole a member).member (fun b => (sole a member).eq_of_id) empty value
    rw [found, Except.ok.inj (admitted'.symm.trans admitted)]

end Accepts

end Args

variable {H : Type u}

/-- The argument says nothing of others and is not passed on. -/
structure Args.ArgSpec.Modest (a : ArgSpec) : Prop where
  plain : a.Plain
  kept : a.passedOn = false

/-- A level that passes nothing on has nothing to lend but what it has from elsewhere. -/
theorem Node.Shows.forall_lent_enter {n child : Node H} {l : Level} {name : String} (shows : n.Shows l)
    {P : ArgSpec → Prop} (help : P helpOption) (lent : ∀ a ∈ l.lent, P a)
    (kept : ∀ c, n.claim = some c → ∀ a ∈ c.args, a.passedOn = false) :
    ∀ a ∈ (l.enter (child.command name)).lent, P a := by
  intro a member
  rcases List.mem_append.mp member with above | standard
  · apply lent a
    rcases List.mem_append.mp above with inherited | shared
    · have from_ := shows.inherited_enter _ inherited
      rw [passedOn_eq_nil kept, List.nil_append] at from_
      exact List.mem_append_left _ (List.mem_append_left _ from_)
    · exact List.mem_append_left _ (List.mem_append_right _ (List.mem_filter.mp shared).1)
  · exact List.mem_singleton.mp standard ▸ help

/-- Names in front of a command line lead to the level where it goes on, if nothing on the way asks for a value. -/
theorem Node.Shows.readLevel_names {n deepest : Node H} {l : Level} (shows : n.Shows l) {names : List String}
    (reached : n.get? names = some deepest) {P : ArgSpec → Prop} (help : P helpOption)
    (omissible : ∀ a, P a → a.Omissible ∧ a.Plain) (lent : ∀ a ∈ l.lent, P a)
    (claims : ∀ p c, p <+: names → p ≠ names → n.claimAt p = some c → ∀ a ∈ c.args, a.Omissible ∧ a.Modest)
    (tokens : List RawText) :
    ∃ deep, deepest.Shows deep ∧ deep.path = l.path ++ names ∧ (∀ a ∈ deep.lent, P a) ∧
      ∀ below, readLevel deep tokens .start = .ok below →
        ∃ above, readLevel l (names.map RawText.ofString ++ tokens) .start = .ok (above ++ below) := by
  induction names generalizing n l with
  | nil =>
      cases reached
      exact ⟨l, shows, by simp, lent, fun below read => ⟨[], read⟩⟩
  | cons name rest ih =>
      obtain ⟨child, found, there⟩ := Option.bind_eq_some_iff.mp reached
      have own : ∀ c, n.claim = some c → ∀ a ∈ c.args, a.Omissible ∧ a.Modest :=
        fun c => claims [] c List.nil_prefix (List.cons_ne_nil name rest).symm
      have here : ∀ a ∈ l.args, a.Omissible ∧ a.Plain := shows.forall_args (fun a member => omissible a (lent a member))
        fun c held a member => ⟨(own c held a member).1, (own c held a member).2.plain⟩
      have later : ∀ p c, p <+: rest → p ≠ rest → child.claimAt p = some c → ∀ a ∈ c.args, a.Omissible ∧ a.Modest := by
        intro p c above shorter held
        refine claims (name :: p) c (List.cons_prefix_cons.mpr ⟨rfl, above⟩) (by simpa using shorter) ?_
        rw [claimAt_cons, found]
        exact held
      obtain ⟨deep, shows', path, lent', read⟩ := ih (shows_enter child name l) there
        (shows.forall_lent_enter help lent fun c held a member => (own c held a member).2.kept) later
      refine ⟨deep, shows', by simpa [Level.enter, command] using path, lent', fun below done => ?_⟩
      obtain ⟨above, deeper⟩ := read below done
      obtain ⟨-, m, completed, -⟩ := (holds_start l).complete (by simp [Matches.Explicit])
        (fun a member => (here a member).2) (fun a member => .inr (here a member).1) (.inl (rfl : true = true))
      refine ⟨(l, m) :: above, ?_⟩
      rw [List.map_cons, List.cons_append, shows.readLevel_name found, deeper]
      exact bind_eq_ok_iff.mpr ⟨_, rfl, bind_eq_ok_iff.mpr ⟨m, completed, rfl⟩⟩

namespace Tree

/-- The option is for all commands, or for help or the version. -/
def Common (t : Tree H) (a : ArgSpec) : Prop :=
  a ∈ t.globals ∨ a = helpOption ∨ a = versionOption

/-- A command line with the names of a command and settings for its options. -/
def lineOf (program : RawText) (p : CommandPath) (os : List Setting) : List RawText :=
  program :: (p.map RawText.ofString ++ os.flatMap (·.tokens))

/-- The settings are for options of the command, and all that is asked for besides can be left out. -/
structure Equips (t : Tree H) (xs : List (Offer H)) (x : Offer H) (os : List Setting) : Prop where
  sound : ∀ o ∈ os, o.Sound
  among : ∀ o ∈ os, o.arg ∈ x.2.args
  distinct : (os.map (·.arg.id)).Nodup
  apart : ∀ a ∈ x.2.args, ∀ b ∈ x.2.args, b = a ∨ b.Apart a
  standard : ∀ a ∈ x.2.args, helpOption.Apart a ∧ versionOption.Apart a
  modest : ∀ a ∈ x.2.args, a.Modest
  options : ∀ g ∈ t.globals, g.Omissible ∧ g.Plain
  above : ∀ y ∈ xs, y.path <+: x.path → y.path ≠ x.path → ∀ a ∈ y.2.args, a.Omissible ∧ a.Modest
  left : ∀ a ∈ x.2.args, (∃ o ∈ os, o.arg = a) ∨ a.Omissible

section Equips

variable {t : Tree H} {xs : List (Offer H)} {x : Offer H} {os : List Setting} {n : Node H} {deep : Level}

theorem Equips.omissible (equips : t.Equips xs x os) {a : ArgSpec} (common : t.Common a) :
    a.Omissible ∧ a.Plain := by
  rcases common with global | rfl | rfl
  · exact equips.options a global
  · exact ⟨idle_helpOption.omissible, rfl, rfl, rfl⟩
  · exact ⟨idle_versionOption.omissible, rfl, rfl, rfl⟩

variable (grown : t.Grown xs)
include grown

theorem Grown.undashed_below {p : CommandPath} (reached : t.root.get? p = some n) : n.Undashed := by
  intro r name there
  apply grown.undashed (p ++ r) name
  rwa [List.append_assoc, Node.get?_append, reached, Option.bind_some]

theorem Grown.claim_eq (member : x ∈ xs) (reached : t.root.get? x.path = some n) : n.claim = some x.claim := by
  have claimed := (grown.holds.claims x.path x.claim).mpr ⟨x, member, rfl, rfl⟩
  rwa [claim?, reached, Option.bind_some] at claimed

variable (equips : t.Equips xs x os) (reached : t.root.get? x.path = some n)
include equips reached

/-- The names of the command lead to its level. -/
theorem Grown.level_of_names (calledAs : Option String) :
    ∃ deep, n.Shows deep ∧ deep.path = x.path ∧ (∀ a ∈ deep.lent, t.Common a) ∧
      ∀ below, readLevel deep (os.flatMap (·.tokens)) .start = .ok below →
        ∃ above, readLevel (t.interface.level calledAs)
          (x.path.map RawText.ofString ++ os.flatMap (·.tokens)) .start = .ok (above ++ below) := by
  have above : ∀ p c, p <+: x.path → p ≠ x.path → t.root.claimAt p = some c →
      ∀ a ∈ c.args, a.Omissible ∧ a.Modest := by
    intro p c front shorter held
    obtain ⟨y, inside, rfl, rfl⟩ := (grown.holds.claims p c).mp held
    exact equips.above y inside front shorter
  have help : t.Common helpOption := .inr (.inl rfl)
  have options := forall_lent_level (t := t) calledAs help (.inr (.inr rfl)) fun a global => .inl global
  exact (Node.shows_level t grown.unclaimed calledAs).readLevel_names reached help (fun a => equips.omissible) options
    above (os.flatMap (·.tokens))

variable (member : x ∈ xs) (shows : n.Shows deep) (options : ∀ a ∈ deep.lent, t.Common a)
include member shows options

omit equips in
theorem Grown.forall_args {P : ArgSpec → Prop} (common : ∀ a, t.Common a → P a) (own : ∀ a ∈ x.2.args, P a) :
    ∀ a ∈ deep.args, P a := by
  apply shows.forall_args fun a inside => common a (options a inside)
  intro c held
  cases (grown.claim_eq member reached).symm.trans held
  exact own

theorem Grown.sole_of_equips : ∀ a ∈ x.2.args, deep.Sole a := by
  intro a inside
  refine ⟨?_, grown.forall_args reached member shows options ?_ (equips.apart a inside)⟩
  · apply List.mem_append_left
    rw [shows.own, grown.claim_eq member reached]
    exact inside
  · rintro b (global | rfl | rfl)
    · exact .inr ((grown.suits x member).2 a inside b global).symm
    · exact .inr (equips.standard a inside).1
    · exact .inr (equips.standard a inside).2

/-- The level of the command reads the settings. -/
theorem Grown.readLevel_equips {handler : H} (runs : n.handler? = some handler) :
    ∃ m, readLevel deep (os.flatMap (·.tokens)) .start = .ok [(deep, m)] ∧ m.Reflect os x.2.args := by
  have sole := grown.sole_of_equips equips reached member shows options
  have accepts : deep.Accepts os := ⟨equips.sound, fun o inside => sole _ (equips.among o inside), equips.distinct⟩
  have unnamed : ∀ token, isDashed token → namedChild? deep (RawText.ofString token) = none := by
    intro token dashed
    exact (grown.undashed_below reached).entered?_eq_none shows (RawText.toString?_ofString token) dashed .start
  have left : ∀ a ∈ deep.args, (∃ o ∈ os, o.arg = a) ∨ a.Omissible :=
    grown.forall_args reached member shows options (fun a common => .inr (equips.omissible common).1) equips.left
  have plain : ∀ a ∈ deep.args, a.Plain := grown.forall_args reached member shows options
    (fun a common => (equips.omissible common).2) fun a inside => (equips.modest a inside).plain
  have stands : deep.needsChild = false := by simp [shows.needsChild, Node.needsChild, runs]
  exact accepts.readLevel unnamed plain left stands sole

omit reached shows options

/-- Settings behind the names of a command are received by that command. -/
theorem Grown.route_settings {handler : H} (runs : x.2.handler = some handler) (program : RawText) :
    ∃ matched, t.route (lineOf program x.path os) = .ok (.invocation { path := x.path, matched, handler }) ∧
      matched.Reflect os x.2.args := by
  obtain ⟨n, reached⟩ := Option.isSome_iff_exists.mp
    ((grown.holds.commands x.path).mpr (.inr ⟨x, member, List.prefix_refl _⟩))
  have running : n.handler? = some handler := by
    rw [Node.handler?, grown.claim_eq member reached]
    exact runs
  obtain ⟨deep, shows, path, options, extend⟩ :=
    grown.level_of_names equips reached (calledAs? (lineOf program x.path os))
  obtain ⟨m, read, reflect⟩ := grown.readLevel_equips equips reached member shows options running
  obtain ⟨above, done⟩ := extend _ read
  let chain := above ++ [(deep, m)]
  have last : (shareValues chain.commonIds chain).getLast? =
      some (deep, (sharedValues chain.commonIds chain).foldl (fun m r => m.put r) m) := by
    rw [shareValues, List.getLast?_map, List.getLast?_concat]
    rfl
  obtain ⟨n', reached', routed⟩ := route_of_read grown.unclaimed done last
  rw [path, reached, Option.some.injEq] at reached'
  subst reached'
  rw [path, running] at routed
  refine ⟨_, routed, ?_⟩
  -- Only the options of all commands are shared, because nothing on the way is passed on.
  have passed : t.root.passedTo x.path = [] := by
    apply Node.passedTo_eq_nil
    intro q c front held a inside
    obtain ⟨y, among, rfl, rfl⟩ := (grown.holds.claims q c).mp held
    by_cases here : y.path = x.path
    · have same := (grown.holds.claims x.path y.claim).mpr ⟨y, among, here, rfl⟩
      rw [(grown.holds.claims x.path x.claim).mpr ⟨x, member, rfl, rfl⟩, Option.some.injEq] at same
      have own : a ∈ x.claim.args := same ▸ inside
      exact (equips.modest a own).kept
    · exact (equips.above y among front here a inside).2.kept
  have kept : ∀ a ∈ x.2.args,
      Matches.get? a.id ((sharedValues chain.commonIds chain).foldl (fun m r => m.put r) m) = m.get? a.id := by
    intro a inside
    have other : a.id ∉ chain.commonIds := by
      intro among
      obtain ⟨g, global, same⟩ := grown.mem_commonIds routed done a.id among
      rw [passed, List.nil_append] at global
      exact ((grown.suits x member).2 a inside g global).1 same.symm
    rw [Chain.get?_shared, if_neg other, Option.none_or]
  constructor
  · intro o inside
    rw [kept _ (equips.among o inside), reflect.given o inside]
  · intro a inside unset absent v value held admitted
    rw [kept a inside, reflect.default a inside unset absent v value held admitted]

end Equips

end Tree

end ChainRelay
