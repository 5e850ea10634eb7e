import ChainRelay.Args.Parse

/-! # Levels that read alike

A refusal names its level with all that it offers, but what a level receives depends on less: on its
arguments, on whether it can stand alone, and on which names its commands have. Two levels that agree
on these accept the same tokens with the same values.
-/

namespace ChainRelay.Args

/-- The levels take the same arguments and know the same names of commands. -/
structure Level.Kin (l l' : Level) : Prop where
  args : l.args = l'.args
  needsChild : l.needsChild = l'.needsChild
  names : ∀ name, (l.child? name).isSome = (l'.child? name).isSome

theorem toOption_bind (x : Except ε α) (f : α → Except ε β) :
    (x >>= f).toOption = x.toOption.bind fun a => (f a).toOption := by
  cases x <;> rfl

theorem bind_eq_ok_iff {x : Except ε α} {f : α → Except ε β} {b : β} :
    x >>= f = .ok b ↔ ∃ a, x = .ok a ∧ f a = .ok b := by
  cases x <;> simp [bind, Except.bind]

theorem toOption_eq_some_iff {x : Except ε α} {a : α} : x.toOption = some a ↔ x = .ok a := by
  cases x <;> simp [Except.toOption]

theorem settled_kin (l l' : Level) (s : Scan) : (settled l s).toOption = (settled l' s).toOption := by
  unfold settled
  cases settle s with
  | mk s cause => cases cause <;> rfl

theorem take_kin (l l' : Level) (a : ArgSpec) (value : Option RawText) (s : Scan) :
    (take l a value s).toOption = (take l' a value s).toOption := by
  unfold take
  rw [toOption_bind, toOption_bind, settled_kin l l']
  congr 1
  funext s
  cases receive .commandLine a value s.matched with
  | mk m cause => cases cause <;> rfl

theorem takeOption_kin (l l' : Level) (a : ArgSpec) (long : Bool) (value : Option RawText) (s : Scan) :
    (takeOption l a long value s).toOption = (takeOption l' a long value s).toOption := by
  unfold takeOption
  cases a.action with
  | help =>
      simp only [toOption_bind, settled_kin l l']
      rfl
  | version => simp only [toOption_bind, settled_kin l l']
  | flag | count => exact take_kin l l' a none s
  | set | append =>
      cases value with
      | none => simp only [toOption_bind, settled_kin l l']
      | some v => exact take_kin l l' a (some v) s

section Kin

variable {l l' : Level} (kin : l.Kin l')
include kin

theorem Level.Kin.positionals : l.positionals = l'.positionals := by
  rw [Level.positionals, Level.positionals, kin.args]

theorem Level.Kin.namedChild? (t : RawText) : (namedChild? l t).isSome = (namedChild? l' t).isSome := by
  unfold Args.namedChild?
  cases t.toString? with
  | none => rfl
  | some name => exact kin.names name

theorem Level.Kin.entered? (t : RawText) (s : Scan) :
    (Args.entered? l t s).isSome = (Args.entered? l' t s).isSome := by
  unfold Args.entered?
  split
  · exact kin.namedChild? t
  · rfl

theorem takeLong_kin (name : RawText) (value : Option RawText) (rest : List RawText) (s : Scan) :
    (takeLong l name value rest s).toOption = (takeLong l' name value rest s).toOption := by
  have known : name.toString?.bind l.long? = name.toString?.bind l'.long? := by
    congr 1
    funext n
    rw [Level.long?, Level.long?, kin.args]
  unfold takeLong
  rw [known]
  cases name.toString?.bind l'.long? with
  | none => rfl
  | some a =>
      cases value with
      | none => exact takeOption_kin l l' a true none s
      | some v =>
          cases taken : a.takesValue with
          | true => simpa only [taken, if_true] using takeOption_kin l l' a true (some v) s
          | false => simp only [taken, Bool.false_eq_true, if_false]; rfl

theorem takeShorts_kin (cluster : RawText) (s : Scan) :
    (takeShorts l cluster s).toOption = (takeShorts l' cluster s).toOption := by
  induction cluster generalizing s with
  | nil => rfl
  | cons u rest ih =>
      cases u with
      | byte b => rfl
      | char c =>
          have known : l.short? c = l'.short? c := by rw [Level.short?, Level.short?, kin.args]
          unfold takeShorts
          simp only [known]
          cases l'.short? c with
          | none => rfl
          | some a =>
              cases taken : a.takesValue with
              | true => simpa only [taken, if_true] using takeOption_kin l l' a false _ s
              | false =>
                  have same := takeOption_kin l l' a false none s
                  simp only [taken, Bool.false_eq_true, if_false]
                  cases here : takeOption l a false none s <;>
                    cases there : takeOption l' a false none s <;> simp_all [Except.toOption]

theorem nextPlace_kin (next : Option RawText) (s : Scan) :
    nextPlace l next s = nextPlace l' next s := by
  unfold nextPlace
  simp only [kin.positionals, kin.namedChild?]

theorem takeValue_kin (t : RawText) (next : Option RawText) (s : Scan) :
    (takeValue l t next s).toOption = (takeValue l' t next s).toOption := by
  unfold takeValue
  rw [kin.positionals, nextPlace_kin kin]
  dsimp only
  cases l'.positionals[nextPlace l' next s]? with
  | none => rfl
  | some a => simp only [toOption_bind, settled_kin l l']

/-- A token that names no command changes kindred levels in the same way. -/
theorem takeToken_kin (t : RawText) (rest : List RawText) (s : Scan) :
    (takeToken l t rest s).toOption = (takeToken l' t rest s).toOption := by
  unfold takeToken
  split
  · exact takeValue_kin kin t rest.head? s
  · split
    · rfl
    · exact takeLong_kin kin _ _ rest s
    · exact takeShorts_kin kin _ s
    · split
      · rfl
      · exact takeValue_kin kin t rest.head? s
      · exact takeValue_kin kin t rest.head? s

theorem checkGiven_kin (given : List String) :
    (checkGiven l given).toOption = (checkGiven l' given).toOption := by
  unfold checkGiven
  rw [kin.args]
  cases clash? l'.args given with
  | some clash => rfl
  | none =>
      dsimp only
      split <;> rfl

/-- Kindred levels are completed with the same values. -/
theorem complete_kin (hasChild : Bool) (s : Scan) :
    (complete l hasChild s).toOption = (complete l' hasChild s).toOption := by
  unfold complete
  rw [kin.args, kin.needsChild]
  simp only [toOption_bind, settled_kin l l']
  congr 1
  funext s
  congr 1
  · cases receiveEnvironment l'.args s.matched with
    | mk m cause => cases cause <;> rfl
  · funext m
    congr 1
    · cases receiveDefaults l'.args m with
      | mk m cause => cases cause <;> rfl
    · funext m
      split
      · rfl
      · rw [toOption_bind, toOption_bind, checkGiven_kin kin]

end Kin

end ChainRelay.Args
