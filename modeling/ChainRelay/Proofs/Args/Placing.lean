import ChainRelay.Proofs.Args.Completion

/-! # Values and places

What a level has received from its tokens was typed, by a token for an option or by one for a place. The
tokens that are read for places are those that could be the names of commands instead.
-/

namespace ChainRelay.Args

/-- What has been received was typed, and what has been received or is awaited belongs to one of some arguments. -/
structure Scan.Typed (A : ArgSpec → Prop) (s : Scan) : Prop where
  received : ∀ r ∈ s.matched, r.source ≠ .default ∧ ∃ a, A a ∧ a.id = r.id
  waiting : ∀ p, s.pending = some p → A p.arg
  wanted : ∀ a, s.expecting = .optionValue a → A a

theorem typed_start (A : ArgSpec → Prop) : Scan.start.Typed A where
  received := by
    intro r absent
    cases absent
  waiting := by
    intro p absent
    cases absent
  wanted := by
    intro a absent
    cases absent

/-- The arguments of a level whose occurrences do not stop the reading. -/
def Level.Receives (l : Level) (a : ArgSpec) : Prop :=
  a ∈ l.args ∧ (a.isPositional = true ∨ a.action ≠ .help ∧ a.action ≠ .version)

section Typed

variable {A : ArgSpec → Prop} {l : Level} {s s' : Scan}

theorem Scan.Typed.receive (typed : s.Typed A) {a : ArgSpec} (admitted : A a) {value : Option RawText} {m : Matches}
    (received : Args.receive .commandLine a value s.matched = (m, none)) :
    ∀ r ∈ m, r.source ≠ .default ∧ ∃ a, A a ∧ a.id = r.id := by
  have erased : ∀ r ∈ s.matched.erase a.id, r.source ≠ .default ∧ ∃ a, A a ∧ a.id = r.id := by
    intro r member
    exact typed.received r (List.mem_filter.mp member).1
  have base : ∀ r ∈ if a.action = .count then s.matched.erase a.id else s.matched,
      r.source ≠ .default ∧ ∃ a, A a ∧ a.id = r.id := by
    split
    · exact erased
    · exact typed.received
  unfold Args.receive at received
  dsimp only at received
  split at received
  · cases received
  · split at received
    · cases received
    · split at received
      · cases received
        intro r member
        cases Matches.mem_put member with
        | inl new => exact new ▸ ⟨by simp, a, admitted, rfl⟩
        | inr old => exact base r old
      · cases received

theorem Scan.Typed.settled (typed : s.Typed A) (done : settled l s = .ok s') : s'.Typed A := by
  unfold Args.settled settle at done
  cases pending : s.pending with
  | none =>
      simp only [pending] at done
      cases done
      exact typed
  | some p =>
      simp only [pending] at done
      rcases result : Args.receive .commandLine p.arg p.value s.matched with ⟨m, _ | cause⟩
      · simp only [result] at done
        cases done
        exact
          { typed with
            received := typed.receive (typed.waiting p pending) result
            waiting := by simp }
      · simp only [result] at done
        cases done

theorem Scan.Typed.take (typed : s.Typed A) {a : ArgSpec} (admitted : A a) {value : Option RawText}
    (taken : take l a value s = .ok s') : s'.Typed A := by
  obtain ⟨s₁, first, later⟩ := bind_eq_ok_iff.mp taken
  have typed := typed.settled first
  rcases result : Args.receive .commandLine a value s₁.matched with ⟨m, _ | cause⟩
  · simp only [result] at later
    cases later
    exact
      { typed with
        received := typed.receive admitted result
        wanted := by simp }
  · simp only [result] at later
    cases later

theorem action_of_takeOption {a : ArgSpec} {long : Bool} {value : Option RawText}
    (taken : takeOption l a long value s = .ok s') : a.action ≠ .help ∧ a.action ≠ .version := by
  unfold takeOption at taken
  cases action : a.action with
  | help | version =>
      simp only [action] at taken
      obtain ⟨s, -, stopped⟩ := bind_eq_ok_iff.mp taken
      cases stopped
  | _ => simp

theorem Scan.Typed.takeOption (typed : s.Typed A) {a : ArgSpec} (admitted : A a) {long : Bool}
    {value : Option RawText} (taken : takeOption l a long value s = .ok s') : s'.Typed A := by
  unfold Args.takeOption at taken
  cases action : a.action with
  | help | version =>
      simp only [action] at taken
      obtain ⟨s₁, -, stopped⟩ := bind_eq_ok_iff.mp taken
      cases stopped
  | flag | count =>
      simp only [action] at taken
      exact typed.take admitted taken
  | set | append =>
      simp only [action] at taken
      cases value with
      | some v => exact typed.take admitted taken
      | none =>
          obtain ⟨s₁, first, later⟩ := bind_eq_ok_iff.mp taken
          cases later
          refine { typed.settled first with waiting := ?_, wanted := ?_ }
          · rintro p ⟨⟩
            exact admitted
          · rintro b ⟨⟩
            exact admitted

theorem Scan.Typed.takeLong (typed : s.Typed l.Receives) {name : RawText} {value : Option RawText} {rest : List RawText}
    (taken : takeLong l name value rest s = .ok s') : s'.Typed l.Receives := by
  unfold Args.takeLong at taken
  cases found : name.toString?.bind l.long? with
  | none =>
      rw [found] at taken
      cases taken
  | some a =>
      obtain ⟨n, -, here⟩ := Option.bind_eq_some_iff.mp found
      have member := List.mem_of_find?_eq_some here
      simp only [found] at taken
      split at taken
      · split at taken
        · exact typed.takeOption ⟨member, .inr (action_of_takeOption taken)⟩ taken
        · cases taken
      · exact typed.takeOption ⟨member, .inr (action_of_takeOption taken)⟩ taken

theorem Scan.Typed.takeShorts (typed : s.Typed l.Receives) {cluster : RawText}
    (taken : takeShorts l cluster s = .ok s') : s'.Typed l.Receives := by
  induction cluster generalizing s with
  | nil =>
      cases taken
      exact typed
  | cons u rest ih =>
      cases u with
      | byte b => cases taken
      | char c =>
          rw [Args.takeShorts] at taken
          dsimp only at taken
          cases found : l.short? c with
          | none =>
              rw [found] at taken
              cases taken
          | some a =>
              have member := List.mem_of_find?_eq_some found
              simp only [found] at taken
              split at taken
              · exact typed.takeOption ⟨member, .inr (action_of_takeOption taken)⟩ taken
              · split at taken
                · next first => exact ih (typed.takeOption ⟨member, .inr (action_of_takeOption first)⟩ first) taken
                · cases taken

theorem Scan.Typed.takeValue (typed : s.Typed l.Receives) {t : RawText} {next : Option RawText}
    (taken : takeValue l t next s = .ok s') : s'.Typed l.Receives := by
  unfold Args.takeValue at taken
  dsimp only at taken
  split at taken
  · cases taken
  · next a here =>
      obtain ⟨member, positional⟩ := List.mem_filter.mp (List.mem_of_getElem? here)
      obtain ⟨s₁, first, later⟩ := bind_eq_ok_iff.mp taken
      have waiting (p : Pending) (awaited : some ⟨a, some t⟩ = some p) : l.Receives p.arg := by
        cases awaited
        exact ⟨member, .inl positional⟩
      split at later <;> cases later
      · exact { typed.settled first with waiting, wanted := by simp }
      · exact { typed.settled first with waiting, wanted := by simp }

/-- What a token that names no command adds was typed for an argument of the level. -/
theorem Scan.Typed.takeToken (typed : s.Typed l.Receives) {t : RawText} {rest : List RawText}
    (taken : takeToken l t rest s = .ok s') : s'.Typed l.Receives := by
  unfold Args.takeToken at taken
  split at taken
  · exact typed.takeValue taken
  · split at taken
    · cases taken
      exact { typed with }
    · exact typed.takeLong taken
    · exact typed.takeShorts taken
    · split at taken
      · next a expecting =>
          cases taken
          refine { typed with waiting := ?_, wanted := by simp [takeOptionValue] }
          rintro p ⟨⟩
          exact typed.wanted a expecting
      · exact typed.takeValue taken
      · exact typed.takeValue taken

end Typed

/-- The token is read as a value of a positional argument, unless it names a command. -/
def isPlaced (t : RawText) (s : Scan) : Bool :=
  s.trailing || (dashToken? t).isNone &&
    match s.expecting with
    | .optionValue _ => false
    | .anything | .moreValues => true

theorem takeToken_placed {l : Level} {t : RawText} {rest : List RawText} {s : Scan}
    (placed : isPlaced t s = true) : takeToken l t rest s = takeValue l t rest.head? s := by
  unfold isPlaced at placed
  unfold takeToken
  cases trailing : s.trailing with
  | true => rfl
  | false =>
      rw [trailing, Bool.false_or, Bool.and_eq_true, Option.isNone_iff_eq_none] at placed
      simp only [placed.1, Bool.false_eq_true, if_false]
      cases expecting : s.expecting with
      | optionValue a => simp [expecting] at placed
      | anything | moreValues => rfl

theorem isPlaced_of_takeValue {l : Level} {t u : RawText} {next : Option RawText} {s s' : Scan}
    (taken : takeValue l t next s = .ok s') (undashed : dashToken? u = none) : isPlaced u s' = true := by
  unfold takeValue at taken
  dsimp only at taken
  split at taken
  · cases taken
  · obtain ⟨s₁, -, later⟩ := bind_eq_ok_iff.mp taken
    split at later <;> cases later <;> simp [isPlaced, undashed]

theorem entered?_of_unnamed {l : Level} {t : RawText} (unnamed : namedChild? l t = none) (s : Scan) :
    entered? l t s = none := by
  unfold entered?
  split
  · exact unnamed
  · rfl

theorem exists_positional_of_takeValue {l : Level} {t : RawText} {next : Option RawText} {s s' : Scan}
    (taken : takeValue l t next s = .ok s') : ∃ a ∈ l.args, a.isPositional = true := by
  unfold takeValue at taken
  dsimp only at taken
  split at taken
  · cases taken
  · next a here => exact ⟨a, List.mem_filter.mp (List.mem_of_getElem? here)⟩

/-- The tokens that are read as values of positional arguments, each with the path of the command. -/
def placed (l : Level) : List RawText → Scan → List (List String × RawText)
  | [], _ => []
  | t :: rest, s =>
    match entered? l t s with
    | some c => placed (l.enter c) rest .start
    | none =>
      (if isPlaced t s then [(l.path, t)] else []) ++
        match takeToken l t rest s with
        | .ok s => placed l rest s
        | .error _ => []

theorem placed_enter {l : Level} {t : RawText} {s : Scan} {c : Command} (entered : entered? l t s = some c)
    (rest : List RawText) : placed l (t :: rest) s = placed (l.enter c) rest .start := by
  simp only [placed, entered]

theorem placed_taken {l : Level} {t : RawText} {rest : List RawText} {s s' : Scan} (passed : entered? l t s = none)
    (taken : takeToken l t rest s = .ok s') :
    placed l (t :: rest) s = (if isPlaced t s then [(l.path, t)] else []) ++ placed l rest s' := by
  simp only [placed, passed, taken]

theorem mem_placed_head {l : Level} {t : RawText} {s : Scan} (passed : entered? l t s = none)
    (here : isPlaced t s = true) (rest : List RawText) : (l.path, t) ∈ placed l (t :: rest) s := by
  simp [placed, passed, here]

end ChainRelay.Args
