import ChainRelay.Proofs.Command.Given

/-! # Leaving an option out

Without an option a level is completed exactly if it is completed with the option and the option can be left out.
What else the level receives is the same.
-/

namespace ChainRelay.Args

namespace Matches

/-- The second matches have a value of the command line for an id, which the first ones do without. -/
structure Gains (id : String) (r : Received) (m m' : Matches) : Prop where
  others : m.outside [id] = m'.outside [id]
  without : ∀ q ∈ m, q.id = id → q.source ≠ .commandLine
  given : m'.get? id = some r

end Matches

section Fills

variable {source : Source} {value? : ArgSpec → Option RawText} {args : List ArgSpec} {m m' : Matches}

/-- A source has filled in its value for an argument that had none. -/
theorem Fills.filled (fills : Fills source value? args m m') {a : ArgSpec} (member : a ∈ args)
    (alone : ∀ b ∈ args, b.id = a.id → b = a) (absent : m.get? a.id = none) {v : RawText}
    (value : value? a = some v) : ∃ held, holdValue a none (some v) = .ok held ∧
      m'.get? a.id = some { id := a.id, kind := a.kind, source, held } := by
  induction fills with
  | nil => cases member
  | @pass b rest m m' kept later ih =>
      obtain ⟨here, others⟩ := List.forall_mem_cons.mp alone
      cases List.mem_cons.mp member with
      | inr inside => exact ih inside others absent
      | inl first =>
          subst first
          simp [value, absent] at kept
  | @add b rest m m' w held value' absent' good later ih =>
      obtain ⟨here, others⟩ := List.forall_mem_cons.mp alone
      by_cases same : b.id = a.id
      · obtain rfl := here same
        rw [value, Option.some.injEq] at value'
        refine ⟨held, value' ▸ good, Matches.get?_of_prefix later.isPrefix ?_⟩
        rw [Matches.get?, List.find?_append, ← Matches.get?, absent, Option.none_or]
        simp
      · have inside : a ∈ rest := (List.mem_cons.mp member).resolve_left fun first => same (first ▸ rfl)
        apply ih inside others
        rw [Matches.get?_eq_none_iff] at absent ⊢
        rw [List.forall_mem_append, List.forall_mem_singleton]
        exact ⟨absent, same⟩

theorem Fills.admitted (fills : Fills source value? args m m') {a : ArgSpec} (member : a ∈ args)
    (alone : ∀ b ∈ args, b.id = a.id → b = a) (absent : m.get? a.id = none) {v : RawText}
    (value : value? a = some v) : ∃ held, holdValue a none (some v) = .ok held := by
  obtain ⟨held, good, -⟩ := fills.filled member alone absent value
  exact ⟨held, good⟩

end Fills

theorem Level.Sole.filled {l : Level} {g : ArgSpec} (sole : l.Sole g) {source : Source}
    {value? : ArgSpec → Option RawText} {m m' : Matches} (fills : Fills source value? l.args m m')
    (absent : m.get? g.id = none) : ∀ q ∈ m', q.id = g.id → q.source = source ∧ (value? g).isSome := by
  intro q member same
  cases fills.added q member with
  | inl old => exact absurd same (Matches.get?_eq_none_iff.mp absent q old)
  | inr new =>
      obtain ⟨filled, a, inside, named, value⟩ := new
      obtain rfl := sole.eq_of_id inside (named.trans same)
      exact ⟨filled, value⟩

section Complete

variable {l : Level} {g : ArgSpec} (knows : l.Knows g)
include knows

variable {m m₁ m₂ : Matches} (absent : m.get? g.id = none) (environment : Fills .environment standIn? l.args m m₁)
  (defaults : Fills .default defaultValue? l.args m₁ m₂)
include absent environment defaults

theorem Level.Knows.not_given : ∀ q ∈ m₂, q.id = g.id → q.source ≠ .commandLine := by
  intro q member same
  cases defaults.added q member with
  | inl old => simp [(knows.sole.filled environment absent q old same).1]
  | inr new => simp [new.1]

/-- An option that the environment and the defaults had to fill in can be left out. -/
theorem Level.Knows.omissible (given : g.required = true → g.id ∈ m₂.explicitIds) : g.Omissible where
  environment := by
    intro v value
    exact environment.admitted knows.sole.member (fun b => knows.eq_of_id) absent value
  default := by
    intro unset v value
    apply defaults.admitted knows.sole.member (fun b => knows.eq_of_id) _ value
    rw [Matches.get?_eq_none_iff]
    intro q member same
    simpa [unset] using (knows.sole.filled environment absent q member same).2
  given := by
    intro required
    obtain ⟨q, held, source, named⟩ := Matches.mem_explicitIds.mp (given required)
    cases defaults.added q held with
    | inl old => exact (knows.sole.filled environment absent q old named).2
    | inr new => exact absurd new.1 source

end Complete

/-- A level that is completed without the option has no value of it from the command line. -/
theorem complete_not_given {l : Level} {g : ArgSpec} (knows : l.Knows g) {y : Option Received} {trailing : Bool}
    {s s' : Scan} (differ : s.Differ g.id none y trailing s') {hasChild : Bool} {m : Matches}
    (done : complete l hasChild s = .ok m) : ∀ q ∈ m, q.id = g.id → q.source ≠ .commandLine := by
  obtain ⟨s₁, m₁, first, environment, defaults, -⟩ := complete_eq_ok_iff.mp done
  obtain ⟨-, s₁', -, settled⟩ := (differ.settled l).forth s₁ first
  exact knows.not_given settled.matched.first environment defaults

/-- The option is of no account to any argument of the level, nor any argument to the option. -/
structure Level.Ignores (l : Level) (g : ArgSpec) : Prop where
  ignored : ∀ a ∈ l.args, a.Ignores g.id
  plain : g.Plain

section Complete

variable {l : Level} {g : ArgSpec} (knows : l.Knows g) (ignores : l.Ignores g)
include knows ignores

theorem Level.Ignores.plain_of_id : ∀ a ∈ l.args, a.id = g.id → a.Plain := by
  intro a member same
  exact knows.eq_of_id member same ▸ ignores.plain

/-- What was given agrees whether the option was given or not. -/
theorem Level.Ignores.agree {m m' : Matches} (same : m.outside [g.id] = m'.outside [g.id])
    (covered : g.required = true → g.id ∈ m'.explicitIds) (agree : Agree l.args m.explicitIds) :
    Agree l.args m'.explicitIds := by
  apply agree.across ignores.ignored (ignores.plain_of_id knows)
  · intro other apart
    have outside : other ∉ [g.id] := by simpa using apart
    exact ⟨Matches.mem_explicitIds_congr outside same, Matches.mem_explicitIds_congr outside same.symm⟩
  · intro a member named required
    exact covered (knows.eq_of_id member named ▸ required)

theorem complete_omissible {y : Option Received} {trailing : Bool} {s s' : Scan}
    (differ : s.Differ g.id none y trailing s') {hasChild : Bool} {m : Matches}
    (done : complete l hasChild s = .ok m) : g.Omissible := by
  obtain ⟨s₁, m₁, first, environment, defaults, -, agree⟩ := complete_eq_ok_iff.mp done
  obtain ⟨-, s₁', -, settled⟩ := (differ.settled l).forth s₁ first
  apply knows.omissible settled.matched.first environment defaults
  exact agree.given_of_ignored ignores.ignored (ignores.plain_of_id knows) knows.sole.member rfl

variable {r : Received} {trailing : Bool} {s s' : Scan} (differ : s.Differ g.id none (some r) trailing s')
  {hasChild : Bool}
include differ

theorem complete_forth (source : r.source = .commandLine) {m : Matches} (done : complete l hasChild s = .ok m) :
    g.Omissible ∧ ∃ m', complete l hasChild s' = .ok m' ∧ m.Gains g.id r m' := by
  have omissible := complete_omissible knows ignores differ done
  have without := complete_not_given knows differ done
  obtain ⟨s₁, m₁, first, environment, defaults, stands, agree⟩ := complete_eq_ok_iff.mp done
  obtain ⟨-, s₁', first', settled⟩ := (differ.settled l).forth s₁ first
  have there {m : Matches} (given : m.get? g.id = some r) (value? : ArgSpec → Option RawText) :
      Admits value? [g.id] l.args m := by
    intro a _ inside v _
    rw [List.mem_singleton.mp inside, given]
    exact .inl rfl
  have given := settled.matched.second
  obtain ⟨m₁', environment', same₁⟩ := environment.across settled.matched.others.symm (there given _)
  have given₁ := Matches.get?_of_prefix environment'.isPrefix given
  obtain ⟨m', defaults', same⟩ := defaults.across same₁ (there given₁ _)
  have given' := Matches.get?_of_prefix defaults'.isPrefix given₁
  have explicit : g.id ∈ m'.explicitIds :=
    Matches.mem_explicitIds.mpr ⟨r, List.mem_of_find?_eq_some given', by simp [source], Matches.id_of_get? given'⟩
  exact ⟨omissible, m', complete_eq_ok_iff.mpr ⟨s₁', m₁', first', environment', defaults', stands,
    ignores.agree knows same.symm (fun _ => explicit) agree⟩, same.symm, without, given'⟩

theorem complete_back (omissible : g.Omissible) {m' : Matches} (done : complete l hasChild s' = .ok m') :
    ∃ m, complete l hasChild s = .ok m ∧ m.Gains g.id r m' := by
  obtain ⟨s₁', m₁', first', environment', defaults', stands, agree⟩ := complete_eq_ok_iff.mp done
  obtain ⟨s₁, first, settled⟩ := (differ.settled l).back trivial s₁' first'
  have only {a : ArgSpec} (member : a ∈ l.args) (inside : a.id ∈ [g.id]) : a = g :=
    knows.eq_of_id member (List.mem_singleton.mp inside)
  have admits : Admits standIn? [g.id] l.args s₁.matched := by
    intro a member inside v value
    rw [only member inside] at value ⊢
    exact .inr (omissible.environment v value)
  obtain ⟨m₁, environment, same₁⟩ := environment'.across settled.matched.others admits
  have admits₁ : Admits defaultValue? [g.id] l.args m₁ := by
    intro a member inside v value
    rw [only member inside] at value ⊢
    cases set : standIn? g with
    | none => exact .inr (omissible.default set v value)
    | some w => exact .inl (environment.present g knows.sole.member (by rw [set]; rfl))
  obtain ⟨m, defaults, same⟩ := defaults'.across same₁ admits₁
  have given := Matches.get?_of_prefix (environment'.isPrefix.trans defaults'.isPrefix) settled.matched.second
  have without := knows.not_given settled.matched.first environment defaults
  refine ⟨m, complete_eq_ok_iff.mpr ⟨s₁, m₁, first, environment, defaults, stands, ?_⟩, same, without, given⟩
  apply ignores.agree knows same.symm _ agree
  intro needed
  obtain ⟨q, held, named⟩ :=
    Matches.isSome_get?_iff.mp (environment.present g knows.sole.member (omissible.given needed))
  have filled := (knows.sole.filled environment settled.matched.first q held named).1
  exact Matches.mem_explicitIds.mpr ⟨q, defaults.isPrefix.subset held, by simp [filled], named⟩

/-- A level is completed without an option as with it, if the option can be left out. -/
theorem complete_follows (source : r.source = .commandLine) :
    Follows g.Omissible (Matches.Gains g.id r) (complete l hasChild s) (complete l hasChild s') where
  asked := by
    rw [asked_of_refuses (refuses_complete l hasChild s), asked_of_refuses (refuses_complete l hasChild s')]
  forth := fun m done => complete_forth knows ignores differ source done
  back := fun omissible m' done => complete_back knows ignores differ omissible done

end Complete

/-- The option is not given by any token of a level before the options end. -/
def Silent (flag : String) (trailing : Bool) (tokens : List RawText) : Prop :=
  trailing = true ∨ ∀ t ∈ tokens.takeWhile (· != escape), gives flag t = false

theorem Silent.head {flag : String} {trailing : Bool} {t : RawText} {rest : List RawText}
    (silent : Silent flag trailing (t :: rest)) : trailing = true ∨ gives flag t = false := by
  cases silent with
  | inl ended => exact .inl ended
  | inr none =>
      right
      by_cases ends : t = escape
      · rw [ends]
        rfl
      · exact none t (by simp [ends])

theorem Silent.tail {flag : String} {trailing : Bool} {t : RawText} {rest : List RawText}
    (silent : Silent flag trailing (t :: rest)) : Silent flag (trailing || t == escape) rest := by
  cases silent with
  | inl ended => exact .inl (by simp [ended])
  | inr none =>
      by_cases ends : t = escape
      · exact .inl (by simp [ends])
      · exact .inr fun u member => none u (by simp [ends, member])

/-- The chains agree but for the first level, which has gained an option in the second one. -/
def Chain.Gains (id : String) (r : Received) (l : Level) (chain chain' : Chain) : Prop :=
  ∃ m m' below, chain = (l, m) :: below ∧ chain' = (l, m') :: below ∧ m.Gains id r m'

/-- What follows an option is read as it would be without the option. -/
theorem readLevel_follows {l : Level} {g : ArgSpec} {flag : String} (knows : l.Knows g) (ignores : l.Ignores g)
    (long : g.Long flag) {r : Received} (source : r.source = .commandLine) {trailing : Bool} {tokens : List RawText}
    (silent : Silent flag trailing tokens) {s s' : Scan} (differ : s.Differ g.id none (some r) trailing s') :
    Follows g.Omissible (Chain.Gains g.id r l) (readLevel l tokens s) (readLevel l tokens s') := by
  induction tokens generalizing trailing s s' with
  | nil =>
      apply follows_then (complete_follows knows ignores differ source) (fun m => refuses_ok _) (fun m => refuses_ok _)
      intro m m' gains
      exact follows_ok ⟨m, m', [], rfl, rfl, gains⟩
  | cons t rest ih =>
      have entered' : entered? l t s' = entered? l t s := by
        unfold entered?
        rw [differ.second, differ.first, differ.expecting]
      rw [readLevel, readLevel, entered']
      cases entered : entered? l t s with
      | some c =>
          apply follows_bind (follows_refl _)
          rintro below _ rfl
          apply follows_then (complete_follows knows ignores differ source) (fun m => refuses_ok _)
            (fun m => refuses_ok _)
          intro m m' gains
          exact follows_ok ⟨m, m', below, rfl, rfl, gains⟩
      | none =>
          apply follows_bind (takeToken_differ knows long differ silent.head rest)
          intro s s' differ
          exact ih silent.tail differ

end ChainRelay.Args
