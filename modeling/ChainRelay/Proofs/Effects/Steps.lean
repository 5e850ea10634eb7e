import ChainRelay.Proofs.Effects.Carrying
import ChainRelay.Proofs.Effects.Polling

/-! # Runs step by step

A run that asks nothing else than it may writes no line, and a stop is for good. Steps that may fail are
taken in turn up to the first that fails, each in the world that the one before it has left.
-/

namespace ChainRelay

namespace World

/-! ## Silence -/

theorem printed_keep (w : World) (entry : LogEntry) : (w.keep entry).printed = w.printed := by
  unfold keep
  split <;> rfl

theorem carried_printed : Carried (fun q => ∀ text, q ≠ .print text) fun w w' => w'.printed = w.printed where
  refl w := rfl
  trans first second := second.trans first
  answer w q silent := by
    cases q with
    | print text => exact absurd rfl (silent text)
    | openLog limit => by_cases opened : w.logLimit.isSome <;> simp [answer, opened]
    | log entry => exact printed_keep w entry
    | writeFile path content => cases wrote : w.files.write path content <;> simp [answer, settle, wrote]
    | createFoldersAround path =>
        rcases made : w.files.createFoldersAround path with ⟨files, _ | e⟩ <;> simp [answer, made]
    | post address body => cases left : w.replies <;> simp [answer, left]
    | readFile | listFolder | fileExists | userHome | isCancelled | construct => rfl
  interrupted w := by
    simp only [World.interrupted]
    split <;> exact printed_keep _ _
  pass w := by
    unfold World.pass
    split <;> rfl
  stop w := rfl

/-! ## Stops are for good -/

/-- What decides whether a program is asked to stop is the same. -/
structure SameStops (w w' : World) : Prop where
  cancelled : w'.isCancelled = w.isCancelled
  later : w'.cancelAfter = w.cancelAfter
  lines : w.interruptOn = [] → w'.interruptOn = []
  quiet : w.interruptOn = [] → w'.interrupts = w.interrupts

theorem SameStops.refl (w : World) : SameStops w w :=
  ⟨rfl, rfl, id, fun _ => rfl⟩

theorem sameStops_keep (w : World) (entry : LogEntry) : SameStops w (w.keep entry) := by
  unfold keep
  split <;> exact ⟨rfl, rfl, id, fun _ => rfl⟩

theorem sameStops_answer (w : World) (q : Question) : SameStops w (w.answer q).2 := by
  cases q with
  | print text =>
      simp only [answer, afterPrint]
      split
      · rename_i line rest listed
        split
        · refine ⟨rfl, rfl, fun none => ?_, fun none => ?_⟩ <;> cases listed.symm.trans none
        · exact ⟨rfl, rfl, id, fun _ => rfl⟩
      · exact ⟨rfl, rfl, id, fun _ => rfl⟩
  | openLog limit =>
      unfold answer
      split <;> exact ⟨rfl, rfl, id, fun _ => rfl⟩
  | log entry => exact sameStops_keep w entry
  | writeFile path content =>
      simp only [answer]
      cases w.files.write path content <;> exact ⟨rfl, rfl, id, fun _ => rfl⟩
  | createFoldersAround path =>
      simp only [answer]
      rcases w.files.createFoldersAround path with ⟨files, _ | e⟩ <;> exact ⟨rfl, rfl, id, fun _ => rfl⟩
  | post address body =>
      simp only [answer]
      cases w.replies <;> exact ⟨rfl, rfl, id, fun _ => rfl⟩
  | readFile | listFolder | fileExists | userHome | isCancelled | construct => exact ⟨rfl, rfl, id, fun _ => rfl⟩

theorem carried_isCancelled :
    Carried (fun _ => True) fun w w' => w.isCancelled = true → w'.isCancelled = true where
  refl w stop := stop
  trans first second stop := second (first stop)
  answer w q _ stop := (sameStops_answer w q).cancelled.trans stop
  interrupted w stop := by
    simp only [World.interrupted, stop, if_true]
    exact (sameStops_keep _ _).cancelled
  pass w stop := by
    unfold World.pass
    split <;> simp [stop]
  stop w _ := rfl

/-- No world before one that has not been asked to stop has been. -/
theorem going_of_run {p : Program α} {w : World} (going : (run p w).2.isCancelled = false) :
    w.isCancelled = false := by
  cases stop : w.isCancelled with
  | false => rfl
  | true => cases going.symm.trans (carried_isCancelled.run p.only_true w stop)

theorem going_of_bind {p : Program α} {f : α → Program β} {w : World}
    (going : (run (p >>= f) w).2.isCancelled = false) : (run p w).2.isCancelled = false := by
  rw [run_bind] at going
  rcases ran : run p w with ⟨a | _ | _, left⟩ <;> rw [ran] at going
  · exact going_of_run going
  · exact going
  · exact going

/-- A future that sleeps for good keeps its program from going on. -/
theorem run_of_asleep {p left : Program α} {w v later : World} (asleep : (poll p w).result = .asleep left) :
    (v.sleeps = (.stuck, later) → run left v = (.stuck, later)) ∧
      (v.sleeps = (.aborted, later) → run left v = (.aborted, later)) := by
  induction p generalizing w with
  | ask q next ih => exact ih _ asleep
  | awaitCancel next ih =>
      cases asleep
      rw [run_awaitCancel]
      constructor <;> intro slept <;> rw [slept] <;> rfl
  | hang =>
      cases asleep
      rw [sleeps, run, run]
      rcases notice v.interrupts v with ⟨_ | _, kept⟩
      · constructor <;> intro slept <;> dsimp only at slept
        · split at slept
          · cases slept
          · split at slept <;> cases slept
            rfl
        · split at slept
          · cases slept
          · split at slept <;> cases slept
      · constructor <;> intro slept <;> cases slept
        rfl
  | done | pause => cases asleep

/-- A program that is not asked to stop runs as if it could not be. -/
theorem run_untilCancelled_of_going {p : Program α} {w : World}
    (going : (run p.untilCancelled w).2.isCancelled = false) :
    run p.untilCancelled w = ((run p w).1.map some, (run p w).2) := by
  induction p using poll_induction generalizing w with
  | step p ih =>
      obtain ⟨ran, -⟩ := run_untilCancelled_going p (going_of_run going)
      rw [ran] at going ⊢
      rw [run_poll p w]
      cases polled : (poll p w).result with
      | ready a => rfl
      | pending next =>
          rw [polled, Polled.guarded, run_pause] at going
          rw [Polled.guarded, Polled.rest, run_pause, run_pause]
          rcases waited : (poll p w).left.yields with ⟨_ | _ | _, later⟩ <;> rw [waited] at going
          · exact ih w next polled going
          · rfl
          · rfl
      | asleep left =>
          rw [polled, Polled.guarded, run_awaitCancel] at going
          rw [Polled.guarded, Polled.rest, run_awaitCancel]
          rcases slept : (poll p w).left.sleeps with ⟨_ | _ | _, later⟩ <;> rw [slept] at going
          · cases going.symm.trans (isCancelled_of_sleeps slept)
          · rw [(run_of_asleep polled).1 slept]
            rfl
          · rw [(run_of_asleep polled).2 slept]
            rfl

/-- Nothing in the world will ever ask a program to stop. -/
structure Calm (w : World) : Prop where
  going : w.isCancelled = false
  later : w.cancelAfter = none
  lines : w.interruptOn = []
  quiet : w.interrupts = 0

theorem Calm.answer {w : World} (calm : w.Calm) (q : Question) : (w.answer q).2.Calm := by
  have same := sameStops_answer w q
  exact ⟨same.cancelled.trans calm.going, same.later.trans calm.later, same.lines calm.lines,
    (same.quiet calm.lines).trans calm.quiet⟩

theorem Calm.run {p : Program α} {w : World} (calm : w.Calm) : (run p w).2.Calm := by
  induction p generalizing w with
  | done a => exact calm
  | ask q next ih => exact ih _ (calm.answer q)
  | pause next ih =>
      simp only [World.run, calm.quiet, World.notice, pass, calm.later]
      exact ih calm
  | awaitCancel next ih =>
      simp only [World.run, calm.quiet, World.notice, calm.going, calm.later]
      exact calm
  | hang =>
      simp only [World.run, calm.quiet, World.notice]
      exact calm

end World

/-! ## Steps in turn -/

section Turns

variable {ε α : Type} {f : α → ExceptT ε Program Unit} {xs : List α} {w w' : World} {e : ε}

/-- The steps succeed one after the other. -/
inductive InTurn (f : α → ExceptT ε Program Unit) : World → List α → World → Prop where
  | nil (w : World) : InTurn f w [] w
  | cons {x : α} {rest : List α} {w middle w' : World} (here : World.run (f x).run w = (.finished (.ok ()), middle))
      (more : InTurn f middle rest w') : InTurn f w (x :: rest) w'

/-- One of the steps fails, after those before it have succeeded; the others are not taken. -/
inductive BreaksOff (f : α → ExceptT ε Program Unit) (w : World) (xs : List α) (e : ε) (w' : World) : Prop where
  | at (before : List α) (x : α) (after : List α) {middle : World} (split : xs = before ++ x :: after)
      (done : InTurn f w before middle) (failed : World.run (f x).run middle = (.finished (.error e), w'))

theorem run_forM_cons_ok_iff {x : α} : World.run (forM (x :: xs) f).run w = (.finished (.ok ()), w') ↔
    ∃ middle, World.run (f x).run w = (.finished (.ok ()), middle) ∧
      World.run (forM xs f).run middle = (.finished (.ok ()), w') := by
  rw [List.forM_cons, Attempt.run_bind]
  constructor
  · intro ran
    obtain ⟨result, middle, first, more⟩ := World.run_bind_eq_finished ran
    cases result with
    | ok => exact ⟨middle, first, more⟩
    | error => cases more
  · rintro ⟨middle, first, more⟩
    rw [World.run_bind_finished first]
    exact more

theorem run_forM_cons_error_iff {x : α} : World.run (forM (x :: xs) f).run w = (.finished (.error e), w') ↔
    World.run (f x).run w = (.finished (.error e), w') ∨
      ∃ middle, World.run (f x).run w = (.finished (.ok ()), middle) ∧
        World.run (forM xs f).run middle = (.finished (.error e), w') := by
  rw [List.forM_cons, Attempt.run_bind]
  constructor
  · intro ran
    obtain ⟨result, middle, first, more⟩ := World.run_bind_eq_finished ran
    cases result with
    | ok => exact .inr ⟨middle, first, more⟩
    | error =>
        cases more
        exact .inl first
  · rintro (first | ⟨middle, first, more⟩) <;> rw [World.run_bind_finished first]
    · rfl
    · exact more

theorem run_forM_ok_iff : World.run (forM xs f).run w = (.finished (.ok ()), w') ↔ InTurn f w xs w' := by
  induction xs generalizing w with
  | nil =>
      constructor
      · rintro ⟨⟩
        exact .nil _
      · rintro ⟨⟩
        rfl
  | cons x rest ih =>
      rw [run_forM_cons_ok_iff]
      constructor
      · rintro ⟨middle, first, more⟩
        exact .cons first (ih.mp more)
      · rintro (_ | ⟨first, more⟩)
        exact ⟨_, first, ih.mpr more⟩

theorem run_forM_error_iff : World.run (forM xs f).run w = (.finished (.error e), w') ↔ BreaksOff f w xs e w' := by
  constructor
  · intro ran
    induction xs generalizing w with
    | nil => cases ran
    | cons x rest ih =>
        rcases run_forM_cons_error_iff.mp ran with failed | ⟨middle, first, more⟩
        · exact .at [] x rest rfl (.nil w) failed
        · obtain ⟨before, y, after, rfl, done, failed⟩ := ih more
          exact .at (x :: before) y after rfl (.cons first done) failed
  · rintro ⟨before, x, after, rfl, done, failed⟩
    induction done with
    | nil => exact run_forM_cons_error_iff.mpr (.inl failed)
    | cons first more ih => exact run_forM_cons_error_iff.mpr (.inr ⟨_, first, ih failed⟩)

/-- What each step adds to a record, the steps add in turn. -/
theorem InTurn.recorded {γ : Type} {kept : World → List γ} {more : α → List γ}
    (each : ∀ x w w', World.run (f x).run w = (.finished (.ok ()), w') → kept w' = (more x).reverse ++ kept w)
    (done : InTurn f w xs w') : kept w' = (xs.flatMap more).reverse ++ kept w := by
  induction done with
  | nil => rfl
  | cons here _ ih =>
      rw [ih, each _ _ _ here, List.flatMap_cons, List.reverse_append, List.append_assoc]

end Turns

end ChainRelay
