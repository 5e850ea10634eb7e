import ChainRelay.Proofs.Args.Placing
import ChainRelay.Proofs.Command.Growth

/-! # Levels that offer more

A command may get further commands below it, and a group that nobody had claimed may get arguments. Tokens
that were read before are then read in the same way, unless a value turns out to be the name of one of the
new commands.
-/

namespace ChainRelay.Args

/-- The argument can be left out: what stands for it is admitted, and if it is required, the environment
has a value for it. -/
structure ArgSpec.Omissible (a : ArgSpec) : Prop where
  environment : ∀ v, standIn? a = some v → ∃ held, holdValue a none (some v) = .ok held
  default : standIn? a = none → ∀ v, defaultValue? a = some v → ∃ held, holdValue a none (some v) = .ok held
  given : a.required = true → (standIn? a).isSome

theorem omissible_of_optional {a : ArgSpec} (optional : a.required = false)
    (environment : ∀ v, standIn? a = some v → ∃ held, holdValue a none (some v) = .ok held)
    (default : ∀ v, defaultValue? a = some v → ∃ held, holdValue a none (some v) = .ok held) : a.Omissible where
  environment := environment
  default _ := default
  given required := by
    rw [optional] at required
    cases required

/-- New arguments of a command go unnoticed beside those that it has from the commands above: they can be left out,
they are not passed on, and neither a name nor what an argument says of others brings the two together. Where the
environment has a value for a new argument, it is given beside all the others. -/
structure Unnoticed (new lent : List ArgSpec) : Prop where
  omissible : ∀ a ∈ new, a.Omissible
  plain : ∀ a ∈ new, ∀ b ∈ new, a.id = b.id → (standIn? b).isSome → a.Plain
  kept : ∀ a ∈ new, a.passedOn = false
  apart : ∀ a ∈ new, ∀ b ∈ lent, a.Apart b
  unasked : ∀ a ∈ new, ∀ b ∈ lent, a.id ∉ b.requires
  ignored : ∀ a ∈ new, (standIn? a).isSome → ∀ b ∈ lent, b.Ignores a.id

theorem unnoticed_nil (lent : List ArgSpec) : Unnoticed [] lent := by
  constructor <;> intro a absent <;> cases absent

theorem Unnoticed.subset {new lent lent' : List ArgSpec} (unnoticed : Unnoticed new lent) (fewer : lent' ⊆ lent) :
    Unnoticed new lent' where
  omissible := unnoticed.omissible
  plain := unnoticed.plain
  kept := unnoticed.kept
  apart a member b inside := unnoticed.apart a member b (fewer inside)
  unasked a member b inside := unnoticed.unasked a member b (fewer inside)
  ignored a member given b inside := unnoticed.ignored a member given b (fewer inside)

/-- Plain arguments do not notice others that are called differently. -/
theorem Unnoticed.append_plain {new lent plain : List ArgSpec} (unnoticed : Unnoticed new lent)
    (apart : ∀ a ∈ new, ∀ b ∈ plain, a.Apart b) (silent : ∀ b ∈ plain, b.Plain) : Unnoticed new (lent ++ plain) where
  omissible := unnoticed.omissible
  plain := unnoticed.plain
  kept := unnoticed.kept
  apart a member b inside :=
    (List.mem_append.mp inside).elim (unnoticed.apart a member b) (apart a member b)
  unasked a member b inside :=
    (List.mem_append.mp inside).elim (unnoticed.unasked a member b) fun here => by simp [(silent b here).requires]
  ignored a member given b inside :=
    (List.mem_append.mp inside).elim (unnoticed.ignored a member given b) fun here => (silent b here).ignores a.id

/-- The arguments that a level has from the commands above, but for the options for help and version. -/
def Level.above (l : Level) : List ArgSpec :=
  l.inherited.map (·.2) ++ l.shared

/-- The second level has the arguments of the first one and knows more names. A group without arguments
may have got some of its own. -/
structure Level.Widens (l l' : Level) : Prop where
  aligned : l.Aligned l'
  own : l'.own = l.own ∨ l.own = [] ∧ Unnoticed l'.own l.above
  stopping : ∀ a ∈ l.standard, a = helpOption ∨ a = versionOption
  known : ∀ t, (namedChild? l t).isSome → (namedChild? l' t).isSome
  undashed : ∀ t, (namedChild? l' t).isSome → dashToken? t = none

theorem takeOption_ok {l : Level} (l' : Level) {a : ArgSpec} {long : Bool} {value : Option RawText} {s s' : Scan}
    (taken : takeOption l a long value s = .ok s') : takeOption l' a long value s = .ok s' := by
  rw [← toOption_eq_some_iff] at taken ⊢
  rw [← takeOption_kin l l', taken]

theorem settled_ok {l : Level} (l' : Level) {s s' : Scan} (done : settled l s = .ok s') :
    settled l' s = .ok s' := by
  rw [← toOption_eq_some_iff] at done ⊢
  rw [← settled_kin l l', done]

section Widens

variable {l l' : Level} (widens : l.Widens l')
include widens

theorem Level.Widens.args : l'.args = l'.own ++ l.lent := by
  rw [Level.args, widens.aligned.lent]

theorem Level.Widens.args_same (same : l'.own = l.own) : l'.args = l.args := by
  rw [widens.args, same, Level.args]

/-- No argument is passed on that was not passed on before. -/
theorem Level.Widens.passed : l.passed = l'.passed := by
  rcases widens.own with same | ⟨group, unnoticed⟩
  · rw [Level.passed, Level.passed, same, widens.aligned.inherited]
  · have none : (ranked l'.own).filter (·.2.passedOn) = [] := by
      rw [List.filter_eq_nil_iff]
      intro e member
      have inside : e.2 ∈ l'.own := by
        rw [← map_snd_rankedFrom 0 l'.own]
        exact List.mem_map_of_mem member
      simp [unnoticed.kept e.2 inside]
    rw [Level.passed, Level.passed, none, group, widens.aligned.inherited]
    rfl

theorem Level.Widens.positionals (options : l.own = [] → ∀ a ∈ l'.own, a.isPositional = false) :
    l'.positionals = l.positionals := by
  rcases widens.own with same | ⟨group, -⟩
  · rw [Level.positionals, Level.positionals, widens.args_same same]
  · have none : l'.own.filter (·.isPositional) = [] := by simpa [List.filter_eq_nil_iff] using options group
    rw [Level.positionals, Level.positionals, widens.args, Level.args, group, List.filter_append, none]
    rfl

/-- Below a group that gets arguments with new ids no argument from above is missing. -/
theorem Level.Widens.enter {c c' : Command} (name : c.name = c'.name)
    (args : c'.args = c.args ∨
      c.args = [] ∧ ∀ a ∈ c'.args, ∀ b ∈ l.passed.map (·.2) ++ l.shared, a.id ≠ b.id) :
    (l.enter c).Aligned (l'.enter c') := by
  have same (b : ArgSpec) (member : b ∈ l.passed.map (·.2) ++ l.shared) :
      c.args.any (·.id == b.id) = c'.args.any (·.id == b.id) := by
    rcases args with same | ⟨group, apart⟩
    · rw [same]
    · have none : c'.args.any (·.id == b.id) = false := by simpa using fun a inside => apart a inside b member
      rw [none, group]
      rfl
  have aligned := widens.aligned
  refine { path := ?_, inherited := ?_, shared := ?_, standard := rfl }
  · simp only [Level.enter, aligned.path, name]
  · simp only [Level.enter, ← widens.passed]
    apply List.filter_congr
    intro e member
    rw [same e.2 (List.mem_append_left _ (List.mem_map_of_mem member))]
  · simp only [Level.enter, ← aligned.shared]
    apply List.filter_congr
    intro g member
    rw [same g (List.mem_append_right _ member)]

/-- An option that does not stop the reading is found by the same name. -/
theorem Level.Widens.find? {P : ArgSpec → Bool} {a : ArgSpec} (found : l.args.find? P = some a)
    (reads : a.action ≠ .help ∧ a.action ≠ .version) (apart : ∀ b ∈ l'.own, b.Apart a → P b = false) :
    l'.args.find? P = some a := by
  rcases widens.own with same | ⟨group, unnoticed⟩
  · rwa [widens.args_same same]
  · rw [Level.args, group, List.nil_append] at found
    have above : a ∈ l.above := by
      refine (List.mem_append.mp (List.mem_of_find?_eq_some found)).resolve_right fun standard => ?_
      rcases widens.stopping a standard with rfl | rfl
      · exact reads.1 rfl
      · exact reads.2 rfl
    have own : l'.own.find? P = none := by
      rw [List.find?_eq_none]
      intro b member
      simp [apart b member (unnoticed.apart b member a above)]
    rw [widens.args, List.find?_append, own, Option.none_or, found]

theorem takeLong_widens {name : RawText} {value : Option RawText} {rest : List RawText} {s s' : Scan}
    (taken : takeLong l name value rest s = .ok s') : takeLong l' name value rest s = .ok s' := by
  unfold takeLong at taken ⊢
  cases found : name.toString?.bind l.long? with
  | none =>
      rw [found] at taken
      cases taken
  | some a =>
      obtain ⟨n, text, here⟩ := Option.bind_eq_some_iff.mp found
      have kept (reads : a.action ≠ .help ∧ a.action ≠ .version) : name.toString?.bind l'.long? = some a := by
        rw [text, Option.bind_some]
        apply widens.find? here reads
        intro b member apart
        have named : a.long = some n := by simpa using List.find?_some here
        exact beq_false_of_ne fun same => apart.2.1 n same named
      rw [found] at taken
      cases value with
      | none =>
          rw [kept (action_of_takeOption taken)]
          exact takeOption_ok l' taken
      | some v =>
          cases takes : a.takesValue with
          | false =>
              simp only [takes] at taken
              cases taken
          | true =>
              simp only [takes, if_true] at taken
              simp only [kept (action_of_takeOption taken), takes, if_true]
              exact takeOption_ok l' taken

theorem takeShorts_widens {cluster : RawText} {s s' : Scan} (taken : takeShorts l cluster s = .ok s') :
    takeShorts l' cluster s = .ok s' := by
  induction cluster generalizing s with
  | nil => exact taken
  | cons u rest ih =>
      cases u with
      | byte b => cases taken
      | char c =>
          rw [takeShorts] at taken ⊢
          dsimp only at taken ⊢
          cases found : l.short? c with
          | none =>
              rw [found] at taken
              cases taken
          | some a =>
              have kept (reads : a.action ≠ .help ∧ a.action ≠ .version) : l'.short? c = some a := by
                apply widens.find? found reads
                intro b member apart
                have named : a.short = some c := by simpa using List.find?_some found
                exact beq_false_of_ne fun same => apart.2.2 c same named
              simp only [found] at taken
              cases takes : a.takesValue with
              | true =>
                  simp only [takes, if_true] at taken
                  simp only [kept (action_of_takeOption taken), takes, if_true]
                  exact takeOption_ok l' taken
              | false =>
                  simp only [takes, Bool.false_eq_true, if_false] at taken
                  cases first : takeOption l a false none s with
                  | error stop =>
                      rw [first] at taken
                      cases taken
                  | ok s₁ =>
                      rw [first] at taken
                      simp only [kept (action_of_takeOption first), takes, Bool.false_eq_true, if_false,
                        takeOption_ok l' first]
                      exact ih taken

theorem takeValue_widens {t : RawText} {next : Option RawText} {s s' : Scan}
    (taken : takeValue l t next s = .ok s') (places : l'.positionals = l.positionals)
    (ahead : ∀ u, next = some u → (namedChild? l' u).isSome → (namedChild? l u).isSome) :
    takeValue l' t next s = .ok s' := by
  have named (u : RawText) (here : next = some u) : (namedChild? l' u).isSome = (namedChild? l u).isSome := by
    rw [Bool.eq_iff_iff]
    exact ⟨ahead u here, widens.known u⟩
  have next_ : nextPlace l' next s = nextPlace l next s := by
    unfold nextPlace
    rw [places]
    cases next with
    | none => rfl
    | some u => simp only [named u rfl]
  unfold takeValue at taken ⊢
  rw [places, next_]
  dsimp only at taken ⊢
  split
  · next here => simp [here] at taken
  · next a here =>
      simp only [here] at taken
      obtain ⟨s₁, first, later⟩ := bind_eq_ok_iff.mp taken
      exact bind_eq_ok_iff.mpr ⟨s₁, settled_ok l' first, later⟩

/-- A token that is not the name of a command does not become one, if no value for a place does. -/
theorem Level.Widens.entered?_eq_none {t : RawText} {rest : List RawText} {s : Scan} (passed : entered? l t s = none)
    (new : ∀ u, (l.path, u) ∈ placed l (t :: rest) s → (namedChild? l' u).isSome → (namedChild? l u).isSome) :
    entered? l' t s = none := by
  cases trailing : s.trailing with
  | true => simp [entered?, trailing]
  | false =>
      cases expecting : s.expecting with
      | optionValue a => simp [entered?, trailing, expecting]
      | moreValues => simp [entered?, trailing, expecting]
      | anything =>
          simp only [entered?, trailing, expecting] at passed ⊢
          cases named : namedChild? l' t with
          | none => rfl
          | some c =>
              have undashed := widens.undashed t (by rw [named]; rfl)
              have here : isPlaced t s = true := by simp [isPlaced, undashed, expecting]
              have old := new t (mem_placed_head (entered?_of_unnamed passed s) here rest) (by rw [named]; rfl)
              rw [passed] at old
              cases old

/-- A token that is read for a place is read for it as before. -/
theorem Level.Widens.takeToken_placed {t : RawText} {rest : List RawText} {s s' : Scan}
    (passed : entered? l t s = none) (here : isPlaced t s = true) (taken : takeToken l t rest s = .ok s')
    (new : ∀ u, (l.path, u) ∈ placed l (t :: rest) s → (namedChild? l' u).isSome → (namedChild? l u).isSome)
    (places : (l.path, t) ∈ placed l (t :: rest) s → l'.positionals = l.positionals) :
    takeToken l' t rest s = .ok s' := by
  rw [Args.takeToken_placed here] at taken ⊢
  apply takeValue_widens widens taken (places (mem_placed_head passed here rest))
  intro u head named
  cases rest with
  | nil => cases head
  | cons v rest =>
      cases head
      cases old : namedChild? l u with
      | some c => rfl
      | none =>
          -- The next token is a value as well, so it is among those that must not be new names.
          have after := isPlaced_of_takeValue taken (widens.undashed u named)
          have inside : (l.path, u) ∈ placed l (t :: u :: rest) s := by
            rw [placed_taken passed ((Args.takeToken_placed here).trans taken)]
            exact List.mem_append_right _ (mem_placed_head (entered?_of_unnamed old s') after rest)
          simpa [old] using new u inside named

/-- A token that is not the name of a command is read as before, if it does not become one. -/
theorem Level.Widens.takeToken {t : RawText} {rest : List RawText} {s s' : Scan} (passed : entered? l t s = none)
    (taken : takeToken l t rest s = .ok s')
    (new : ∀ u, (l.path, u) ∈ placed l (t :: rest) s → (namedChild? l' u).isSome → (namedChild? l u).isSome)
    (places : (l.path, t) ∈ placed l (t :: rest) s → l'.positionals = l.positionals) :
    entered? l' t s = none ∧ takeToken l' t rest s = .ok s' := by
  refine ⟨widens.entered?_eq_none passed new, ?_⟩
  cases here : isPlaced t s with
  | true => exact widens.takeToken_placed passed here taken new places
  | false =>
      simp only [isPlaced, Bool.or_eq_false_iff] at here
      unfold Args.takeToken at taken ⊢
      rw [here.1] at taken ⊢
      simp only [Bool.false_eq_true, if_false] at taken ⊢
      cases dash : dashToken? t with
      | none =>
          have waiting := here.2
          rw [dash] at waiting
          simp only [dash] at taken ⊢
          cases expecting : s.expecting with
          | optionValue a =>
              simp only [expecting] at taken ⊢
              exact taken
          | anything | moreValues => simp [expecting] at waiting
      | some token =>
          cases token with
          | escape =>
              simp only [dash] at taken ⊢
              exact taken
          | long name value =>
              simp only [dash] at taken ⊢
              exact takeLong_widens widens taken
          | short cluster =>
              simp only [dash] at taken ⊢
              exact takeShorts_widens widens taken

end Widens

theorem complete_same {l l' : Level} (args : l'.args = l.args) {hasChild : Bool} {s : Scan} {m : Matches}
    (stands : hasChild = true ∨ l'.needsChild = false) (done : complete l hasChild s = .ok m) :
    complete l' hasChild s = .ok m := by
  obtain ⟨s', m', first, environment, defaults, -, given⟩ := complete_eq_ok_iff.mp done
  refine complete_eq_ok_iff.mpr ⟨s', m', settled_ok l' first, ?_, ?_, stands, ?_⟩
  · rwa [args]
  · rwa [args]
  · rwa [args]

/-- No default stands for a value. -/
def Matches.Explicit (m : Matches) : Prop :=
  ∀ r ∈ m, r.source ≠ .default

theorem Matches.Explicit.fills {args : List ArgSpec} {m m' : Matches} (explicit : m.Explicit)
    (fills : Fills .environment standIn? args m m') : m'.Explicit := by
  intro r member
  cases fills.added r member with
  | inl old => exact explicit r old
  | inr new => simp [new.1]

theorem Matches.mem_explicitIds {m : Matches} {id : String} :
    id ∈ m.explicitIds ↔ ∃ r ∈ m, r.source ≠ .default ∧ r.id = id := by
  simp [explicitIds, and_assoc]

theorem Matches.mem_explicitIds_congr {ids : List String} {id : String} (other : id ∉ ids) {m m' : Matches}
    (same : m.outside ids = m'.outside ids) (given : id ∈ m.explicitIds) : id ∈ m'.explicitIds := by
  obtain ⟨r, held, source, rfl⟩ := mem_explicitIds.mp given
  have there : r ∈ m'.outside ids := same ▸ mem_outside.mpr ⟨held, other⟩
  exact mem_explicitIds.mpr ⟨r, (mem_outside.mp there).1, source, rfl⟩

/-- What is given in the end has been received from the tokens, or the environment has a value for it. -/
theorem given_of_fills {args : List ArgSpec} {m m₁ m₂ : Matches} (environment : Fills .environment standIn? args m m₁)
    (defaults : Fills .default defaultValue? args m₁ m₂) {r : Received} (member : r ∈ m₂)
    (given : r.source ≠ .default) : r ∈ m ∨ ∃ a ∈ args, a.id = r.id ∧ (standIn? a).isSome := by
  have before := (defaults.added r member).resolve_right fun added => given added.1
  exact (environment.added r before).imp_right (·.2)

section Group

variable {l l' : Level} (widens : l.Widens l')
include widens

theorem Level.Widens.lent_cases {a : ArgSpec} (member : a ∈ l.lent) :
    a ∈ l.above ∨ a = helpOption ∨ a = versionOption :=
  (List.mem_append.mp member).imp_right (widens.stopping a)

variable (group : l.own = [])
include group

theorem Level.Widens.args_group : l'.args = l'.own ++ l.args := by
  rw [widens.args, Level.args, group, List.nil_append]

theorem Level.Widens.above_of_receives {a : ArgSpec} (reads : l.Receives a) : a ∈ l.above := by
  obtain ⟨member, reads⟩ := reads
  rw [Level.args, group, List.nil_append] at member
  rcases widens.lent_cases member with above | rfl | rfl
  · exact above
  · simp [helpOption, ArgSpec.isPositional] at reads
  · simp [versionOption, ArgSpec.isPositional] at reads

theorem Level.Widens.above_of_standIn {a : ArgSpec} (member : a ∈ l.args) (stands : (standIn? a).isSome) :
    a ∈ l.above := by
  rw [Level.args, group, List.nil_append] at member
  rcases widens.lent_cases member with above | rfl | rfl
  · exact above
  · cases stands
  · cases stands

/-- What is given at the group belongs to an option from above. -/
theorem Level.Widens.above_of_given {s : Scan} (typed : s.Typed l.Receives) {m₁ m : Matches}
    (environment : Fills .environment standIn? l.args s.matched m₁)
    (defaults : Fills .default defaultValue? l.args m₁ m) {r : Received} (held : r ∈ m)
    (given : r.source ≠ .default) : ∃ b ∈ l.above, b.id = r.id := by
  rcases given_of_fills environment defaults held given with before | ⟨b, there, named, stands⟩
  · obtain ⟨-, b, reads, named⟩ := typed.received r before
    exact ⟨b, widens.above_of_receives group reads, named⟩
  · exact ⟨b, widens.above_of_standIn group there stands, named⟩

variable (unnoticed : Unnoticed l'.own l.above)
include unnoticed

/-- An option of the group has no id of a new argument, or else stops the reading and has no values. -/
theorem Level.Widens.other_group (a : ArgSpec) (member : a ∈ l.args) :
    a.id ∉ l'.own.map (·.id) ∨ standIn? a = none ∧ defaultValue? a = none := by
  rw [Level.args, group, List.nil_append] at member
  rcases widens.lent_cases member with above | rfl | rfl
  · left
    intro inside
    obtain ⟨b, own, same⟩ := List.mem_map.mp inside
    exact (unnoticed.apart b own a above).1 same
  · exact .inr ⟨rfl, rfl⟩
  · exact .inr ⟨rfl, rfl⟩

/-- The new arguments for which the environment has a value stand beside the others. -/
theorem Level.Widens.agree {given given' : List String} (agree : Agree l.args given)
    (apart : ∀ id ∈ given, ∀ a ∈ l'.own, a.id ≠ id)
    (both : ∀ id, id ∈ given' ↔ id ∈ given ∨ id ∈ (l'.own.filter (standIn? · |>.isSome)).map (·.id)) :
    Agree l'.args given' := by
  have lent : l.args = l.lent := by rw [Level.args, group, List.nil_append]
  rw [widens.args_group group]
  apply agree.widen apart both
  · intro a member added
    obtain ⟨b, inside, same⟩ := List.mem_map.mp added
    obtain ⟨inside, stands⟩ := List.mem_filter.mp inside
    exact unnoticed.plain a member b inside same.symm stands
  · intro id added
    obtain ⟨a, inside, named⟩ := List.mem_map.mp added
    exact ⟨a, (List.mem_filter.mp inside).1, named⟩
  · intro a member b old
    rcases widens.lent_cases (lent ▸ old) with above | rfl | rfl
    · exact unnoticed.unasked a member b above
    · exact List.not_mem_nil
    · exact List.not_mem_nil
  · intro a member required
    exact List.mem_map_of_mem (List.mem_filter.mpr ⟨member, (unnoticed.omissible a member).given required⟩)
  · intro b old required a member
    rcases widens.lent_cases (lent ▸ old) with above | rfl | rfl
    · exact (unnoticed.apart a member b above).1
    · cases required
    · cases required
  · intro id added b old
    obtain ⟨a, inside, rfl⟩ := List.mem_map.mp added
    obtain ⟨inside, stands⟩ := List.mem_filter.mp inside
    rcases widens.lent_cases (lent ▸ old) with above | rfl | rfl
    · exact unnoticed.ignored a inside stands b above
    · exact ⟨rfl, List.not_mem_nil, List.not_mem_nil⟩
    · exact ⟨rfl, List.not_mem_nil, List.not_mem_nil⟩

/-- The environment and the defaults fill up the new arguments, and then the others as before. -/
theorem Level.Widens.fills_group {m m₁ m₂ : Matches} (environment : Fills .environment standIn? l.args m m₁)
    (defaults : Fills .default defaultValue? l.args m₁ m₂) :
    ∃ n₁ n₂, Fills .environment standIn? l'.args m n₁ ∧ Fills .default defaultValue? l'.args n₁ n₂ ∧
      n₂.outside (l'.own.map (·.id)) = m₂.outside (l'.own.map (·.id)) := by
  have other := widens.other_group group unnoticed
  have inside : ∀ a ∈ l'.own, a.id ∈ l'.own.map (·.id) := fun a member => List.mem_map_of_mem member
  obtain ⟨n, own⟩ : ∃ n, Fills .environment standIn? l'.own m n :=
    fills_of_admitted fun a member v value => .inr ((unnoticed.omissible a member).environment v value)
  obtain ⟨n₁, options, same⟩ :=
    environment.transport (fun a member => (other a member).imp_right (·.1)) (own.outside_eq inside)
  obtain ⟨n', ownDefaults⟩ : ∃ n, Fills .default defaultValue? l'.own n₁ n := by
    apply fills_of_admitted
    intro a member v value
    cases there : standIn? a with
    | none => exact .inr ((unnoticed.omissible a member).default there v value)
    | some w =>
        obtain ⟨r, held, named⟩ := Matches.isSome_get?_iff.mp (own.present a member (by rw [there]; rfl))
        exact .inl (Matches.isSome_get?_iff.mpr ⟨r, options.isPrefix.subset held, named⟩)
  obtain ⟨n₂, optionDefaults, same'⟩ := defaults.transport
    (fun a member => (other a member).imp_right (·.2)) ((ownDefaults.outside_eq inside).trans same)
  rw [widens.args_group group]
  exact ⟨n₁, n₂, own.append options, ownDefaults.append optionDefaults, same'⟩

/-- What is given now was given before, or is a new argument for which the environment has a value. -/
theorem Level.Widens.mem_explicitIds_iff {s : Scan} (typed : s.Typed l.Receives) {m n₁ n₂ : Matches}
    (environment : Fills .environment standIn? l'.args s.matched n₁)
    (defaults : Fills .default defaultValue? l'.args n₁ n₂)
    (same : n₂.outside (l'.own.map (·.id)) = m.outside (l'.own.map (·.id)))
    (apart : ∀ id ∈ m.explicitIds, ∀ a ∈ l'.own, a.id ≠ id) (id : String) : id ∈ n₂.explicitIds ↔
      id ∈ m.explicitIds ∨ id ∈ (l'.own.filter (standIn? · |>.isSome)).map (·.id) := by
  have args := widens.args_group group
  constructor
  · intro given
    by_cases new : id ∈ l'.own.map (·.id)
    · right
      obtain ⟨r, held, source, rfl⟩ := Matches.mem_explicitIds.mp given
      obtain ⟨b, own, named⟩ := List.mem_map.mp new
      rcases given_of_fills environment defaults held source with typedThere | ⟨a, there, named', stands⟩
      · obtain ⟨-, a, reads, named'⟩ := typed.received r typedThere
        exact absurd (named.trans named'.symm) (unnoticed.apart b own a (widens.above_of_receives group reads)).1
      · rw [args] at there
        rcases List.mem_append.mp there with fresh | old
        · exact List.mem_map.mpr ⟨a, List.mem_filter.mpr ⟨fresh, stands⟩, named'⟩
        · exact absurd (named.trans named'.symm)
            (unnoticed.apart b own a (widens.above_of_standIn group old stands)).1
    · exact .inl (Matches.mem_explicitIds_congr new same given)
  · intro given
    cases given with
    | inl given =>
        have old : id ∉ l'.own.map (·.id) := by
          intro new
          obtain ⟨a, own, named⟩ := List.mem_map.mp new
          exact apart id given a own named
        exact Matches.mem_explicitIds_congr old same.symm given
    | inr added =>
        obtain ⟨a, member, rfl⟩ := List.mem_map.mp added
        obtain ⟨member, stands⟩ := List.mem_filter.mp member
        have there : a ∈ l'.args := args ▸ List.mem_append_left _ member
        obtain ⟨r, held, named⟩ := Matches.isSome_get?_iff.mp (environment.present a there stands)
        have explicit : n₁.Explicit := Matches.Explicit.fills (fun r held => (typed.received r held).1) environment
        exact Matches.mem_explicitIds.mpr ⟨r, defaults.isPrefix.subset held, explicit r held, named⟩

/-- Arguments that go unnoticed do not change what else a group receives. -/
theorem complete_widens {s : Scan} (typed : s.Typed l.Receives) {m : Matches} (done : complete l true s = .ok m) :
    ∃ m', complete l' true s = .ok m' ∧ ∀ id, (∀ a ∈ l'.own, a.id ≠ id) → m'.get? id = m.get? id := by
  obtain ⟨s', m₁, first, environment, defaults, -, agree⟩ := complete_eq_ok_iff.mp done
  have typed := typed.settled first
  obtain ⟨n₁, n₂, environment', defaults', same⟩ := widens.fills_group group unnoticed environment defaults
  have apart : ∀ id ∈ m.explicitIds, ∀ a ∈ l'.own, a.id ≠ id := by
    intro id given a member
    obtain ⟨r, held, source, rfl⟩ := Matches.mem_explicitIds.mp given
    obtain ⟨b, above, named⟩ := widens.above_of_given group typed environment defaults held source
    exact named ▸ (unnoticed.apart a member b above).1
  have both := widens.mem_explicitIds_iff group unnoticed typed environment' defaults' same apart
  refine ⟨n₂, complete_eq_ok_iff.mpr ⟨s', n₁, settled_ok l' first, environment', defaults', .inl rfl, ?_⟩, ?_⟩
  · exact widens.agree group unnoticed agree apart both
  · intro id other
    apply Matches.get?_congr _ same
    intro among
    obtain ⟨a, own, named⟩ := List.mem_map.mp among
    exact other a own named

end Group

end ChainRelay.Args
