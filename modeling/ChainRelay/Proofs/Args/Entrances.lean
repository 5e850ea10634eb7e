import ChainRelay.Proofs.Args.Kin
import ChainRelay.Proofs.Args.Relations

/-! # Commands that are entered

While a command line is read, names of commands are entered one below the other. They are known also
where the reading fails in the end: the refusal then names one of the levels on the way.
-/

namespace ChainRelay.Args

/-- The commands that are entered while a command line is read, each with the tokens that are left for
it. A token that is refused ends the reading. -/
@[local simp]
def entrances (l : Level) : List RawText → Scan → List (String × List RawText)
  | [], _ => []
  | t :: rest, s =>
    match entered? l t s with
    | some c => (c.name, rest) :: entrances (l.enter c) rest .start
    | none =>
      match takeToken l t rest s with
      | .ok s => entrances l rest s
      | .error _ => []

theorem entrances_enter {l : Level} {t : RawText} {s : Scan} {c : Command} (entered : entered? l t s = some c)
    (rest : List RawText) :
    entrances l (t :: rest) s = (c.name, rest) :: entrances (l.enter c) rest .start := by
  simp [entered]

theorem entrances_taken {l : Level} {t : RawText} {rest : List RawText} {s s' : Scan}
    (passed : entered? l t s = none) (taken : takeToken l t rest s = .ok s') :
    entrances l (t :: rest) s = entrances l rest s' := by
  simp [passed, taken]

theorem entrances_refused {l : Level} {t : RawText} {rest : List RawText} {s : Scan} {stop : Stop}
    (passed : entered? l t s = none) (refused : takeToken l t rest s = .error stop) :
    entrances l (t :: rest) s = [] := by
  simp [passed, refused]

/-- What is left at an entrance is shorter than what there was. -/
theorem length_of_mem_entrances {l : Level} {tokens : List RawText} {s : Scan} :
    ∀ entry ∈ entrances l tokens s, entry.2.length < tokens.length := by
  induction tokens generalizing l s with
  | nil =>
      intro entry member
      cases member
  | cons t rest ih =>
      rw [entrances]
      split
      · intro entry member
        cases List.mem_cons.mp member with
        | inl first => simp [first]
        | inr later => exact Nat.lt_succ_of_lt (ih entry later)
      · split
        · intro entry member
          exact Nat.lt_succ_of_lt (ih entry member)
        · intro entry member
          cases member

theorem head_of_readLevel {l : Level} {tokens : List RawText} {s : Scan} {chain : Chain}
    (read : readLevel l tokens s = .ok chain) : ∃ m below, chain = (l, m) :: below := by
  induction tokens generalizing s with
  | nil =>
      obtain ⟨m, -, done⟩ := bind_eq_ok_iff.mp read
      cases done
      exact ⟨m, [], rfl⟩
  | cons t rest ih =>
      rw [readLevel] at read
      cases entered : entered? l t s with
      | none =>
          simp only [entered] at read
          obtain ⟨s', -, later⟩ := bind_eq_ok_iff.mp read
          exact ih later
      | some c =>
          simp only [entered] at read
          obtain ⟨below, -, read⟩ := bind_eq_ok_iff.mp read
          obtain ⟨m, -, done⟩ := bind_eq_ok_iff.mp read
          cases done
          exact ⟨m, below, rfl⟩

/-- The levels of a command line that is read are those of the names that were entered. -/
theorem names_of_readLevel {l : Level} {tokens : List RawText} {s : Scan} {chain : Chain}
    (read : readLevel l tokens s = .ok chain) :
    chain.tail.map (·.1.name?) = (entrances l tokens s).map (some ·.1) := by
  induction tokens generalizing l s chain with
  | nil =>
      obtain ⟨m, -, done⟩ := bind_eq_ok_iff.mp read
      cases done
      rfl
  | cons t rest ih =>
      rw [readLevel] at read
      rw [entrances]
      cases entered : entered? l t s with
      | none =>
          simp only [entered] at read
          obtain ⟨s', taken, later⟩ := bind_eq_ok_iff.mp read
          simp only [taken]
          exact ih later
      | some c =>
          simp only [entered] at read
          obtain ⟨below, deeper, read⟩ := bind_eq_ok_iff.mp read
          obtain ⟨m, -, done⟩ := bind_eq_ok_iff.mp read
          cases done
          obtain ⟨values, others, rfl⟩ := head_of_readLevel deeper
          have here : (l.enter c).name? = some c.name := by simp [Level.enter, Level.name?]
          simp only [List.tail_cons, List.map_cons, here]
          exact congrArg (some c.name :: ·) (ih deeper)

/-- Only the given level is blamed when something is refused. -/
def Blames (l : Level) (x : Except Stop α) : Prop :=
  ∀ f, x = .error (.failed f) → f.level = l

theorem blames_ok (l : Level) (a : α) : Blames l (.ok a) := by
  intro f failed
  cases failed

theorem blames_refuse (l : Level) (cause : Cause) (used : List String) :
    Blames l (.error (refuse l cause used) : Except Stop α) := by
  intro f failed
  cases failed
  rfl

theorem blames_bind {l : Level} {x : Except Stop α} {f : α → Except Stop β} (first : Blames l x)
    (rest : ∀ a, Blames l (f a)) : Blames l (x >>= f) := by
  cases x with
  | error stop =>
      intro g failed
      exact first g (by simpa [bind, Except.bind] using failed)
  | ok a => exact rest a

theorem blames_settled (l : Level) (s : Scan) : Blames l (settled l s) := by
  unfold settled
  rcases settle s with ⟨s, _ | cause⟩
  · exact blames_ok l s
  · exact blames_refuse l cause []

theorem blames_take (l : Level) (a : ArgSpec) (value : Option RawText) (s : Scan) :
    Blames l (take l a value s) := by
  apply blames_bind (blames_settled l s)
  intro s
  rcases receive .commandLine a value s.matched with ⟨m, _ | cause⟩
  · exact blames_ok l _
  · exact blames_refuse l cause []

theorem blames_takeOption (l : Level) (a : ArgSpec) (long : Bool) (value : Option RawText) (s : Scan) :
    Blames l (takeOption l a long value s) := by
  unfold takeOption
  cases a.action with
  | help | version =>
      apply blames_bind (blames_settled l s)
      intro s f failed
      cases failed
  | flag | count => exact blames_take l a none s
  | set | append =>
      cases value with
      | none => exact blames_bind (blames_settled l s) fun s => blames_ok l _
      | some v => exact blames_take l a (some v) s

theorem blames_takeLong (l : Level) (name : RawText) (value : Option RawText) (rest : List RawText)
    (s : Scan) : Blames l (takeLong l name value rest s) := by
  unfold takeLong
  cases name.toString?.bind l.long? with
  | none =>
      intro f failed
      cases failed
      rfl
  | some a =>
      cases value with
      | none => exact blames_takeOption l a true none s
      | some v =>
          dsimp only
          split
          · exact blames_takeOption l a true (some v) s
          · exact blames_refuse l _ _

theorem blames_takeShorts (l : Level) (cluster : RawText) (s : Scan) : Blames l (takeShorts l cluster s) := by
  induction cluster generalizing s with
  | nil => exact blames_ok l s
  | cons u rest ih =>
      cases u with
      | byte b => exact blames_refuse l _ _
      | char c =>
          rw [takeShorts]
          dsimp only
          cases l.short? c with
          | none => exact blames_refuse l _ _
          | some a =>
              dsimp only
              split
              · exact blames_takeOption l a false _ s
              · have first := blames_takeOption l a false none s
                cases taken : takeOption l a false none s with
                | ok s => exact ih s
                | error stop =>
                    rw [taken] at first
                    intro f failed
                    exact first f (congrArg _ (Except.error.inj failed))

theorem blames_takeValue (l : Level) (t : RawText) (next : Option RawText) (s : Scan) :
    Blames l (takeValue l t next s) := by
  unfold takeValue
  dsimp only
  split
  · intro f failed
    unfold refuseValue at failed
    dsimp only at failed
    repeat' split at failed
    all_goals cases failed; rfl
  · apply blames_bind (blames_settled l s)
    intro s
    split <;> exact blames_ok l _

theorem blames_takeToken (l : Level) (t : RawText) (rest : List RawText) (s : Scan) :
    Blames l (takeToken l t rest s) := by
  unfold takeToken
  split
  · exact blames_takeValue l t rest.head? s
  · split
    · exact blames_ok l _
    · exact blames_takeLong l _ _ rest s
    · exact blames_takeShorts l _ s
    · split
      · exact blames_ok l _
      · exact blames_takeValue l t rest.head? s
      · exact blames_takeValue l t rest.head? s

theorem blames_complete (l : Level) (hasChild : Bool) (s : Scan) : Blames l (complete l hasChild s) := by
  unfold complete
  apply blames_bind (blames_settled l s)
  intro s
  apply blames_bind
  · rcases receiveEnvironment l.args s.matched with ⟨m, _ | cause⟩
    · exact blames_ok l m
    · exact blames_refuse l cause []
  · intro m
    apply blames_bind
    · rcases receiveDefaults l.args m with ⟨m, _ | cause⟩
      · exact blames_ok l m
      · exact blames_refuse l cause []
    · intro m
      split
      · exact blames_refuse l _ _
      · refine blames_bind ?_ fun _ => blames_ok l m
        rcases checkGiven_cases l m.explicitIds with agree | ⟨cause, used, clash⟩
        · exact agree ▸ blames_ok l ()
        · exact clash ▸ blames_refuse l cause used

theorem above_of_blamed {l : Level} {f : Failure} (blamed : f.level = l) (names : List String) :
    ∃ above, f.level.path = l.path ++ above ∧ above <+: names :=
  ⟨[], by simp [blamed], List.nil_prefix⟩

/-- A refusal names a level that was entered. -/
theorem level_of_refused {l : Level} {tokens : List RawText} {s : Scan} {f : Failure}
    (refused : readLevel l tokens s = .error (.failed f)) :
    ∃ above, f.level.path = l.path ++ above ∧ above <+: (entrances l tokens s).map (·.1) := by
  induction tokens generalizing l s with
  | nil =>
      apply above_of_blamed
      exact blames_bind (blames_complete l false s) (fun m => blames_ok l _) f refused
  | cons t rest ih =>
      rw [readLevel] at refused
      rw [entrances]
      cases entered : entered? l t s with
      | none =>
          simp only [entered] at refused ⊢
          cases taken : takeToken l t rest s with
          | error stop =>
              rw [taken] at refused
              have stopped : stop = .failed f := Except.error.inj refused
              exact above_of_blamed (blames_takeToken l t rest s f (stopped ▸ taken)) _
          | ok s' =>
              rw [taken] at refused
              exact ih refused
      | some c =>
          simp only [entered] at refused ⊢
          cases deeper : readLevel (l.enter c) rest .start with
          | error stop =>
              rw [deeper] at refused
              have stopped : stop = .failed f := Except.error.inj refused
              obtain ⟨above, path, inside⟩ := ih (stopped ▸ deeper)
              refine ⟨c.name :: above, by simp [path, Level.enter], ?_⟩
              rw [List.map_cons, List.cons_prefix_cons]
              exact ⟨rfl, inside⟩
          | ok below =>
              rw [deeper] at refused
              apply above_of_blamed
              exact blames_bind (blames_complete l true s) (fun m => blames_ok l _) f refused

end ChainRelay.Args
