import ChainRelay.Proofs.Effects.Run

/-! # Polls

A future goes on when it is polled, up to its next wait. Here a program is the future: one poll takes it
to its result, to its next pause, or to a sleep that only a stop can end. To run it until it is asked to
stop is to ask before each of its polls, and so the race is lost in the first world that is asked to stop
with the future due, whatever its next poll would have come to.
-/

namespace ChainRelay

/-- What one poll of a future comes to. -/
inductive Polled (α : Type) : Type where
  | ready (a : α)
  | pending (next : Program α)
  | asleep (left : Program α)

/-- A poll, with the questions it asked and the world that it left. -/
structure Poll (α : Type) where
  result : Polled α
  asked : List Question
  left : World

/-- All questions count but the one whether the program has been asked to stop. -/
def Question.counted : Question → List Question
  | .isCancelled => []
  | q => [q]

namespace Polled

/-- What a future is left with after a poll. -/
def rest : Polled α → Program α
  | .ready a => .done a
  | .pending next => .pause next
  | .asleep left => left

/-- What a future is left with if it runs until it is asked to stop. -/
def guarded : Polled α → Program (Option α)
  | .ready a => .done (some a)
  | .pending next => .pause next.untilCancelled
  | .asleep _ => .awaitCancel (.done none)

end Polled

namespace World

/-- Poll a future. -/
@[local simp]
def poll : Program α → World → Poll α
  | .done a, w => ⟨.ready a, [], w⟩
  | .ask q next, w =>
    let rest := poll (next (w.answer q).1) (w.answer q).2
    { rest with asked := q.counted ++ rest.asked }
  | .pause next, w => ⟨.pending next, [], w⟩
  | .awaitCancel next, w => ⟨.asleep (.awaitCancel next), [], w⟩
  | .hang, w => ⟨.asleep .hang, [], w⟩

/-- Let others go on. -/
def yields (w : World) : Ending Unit × World :=
  run (.pause (.done ())) w

/-- Wait to be asked to stop. -/
def sleeps (w : World) : Ending Unit × World :=
  run (.awaitCancel (.done ())) w

/-- The questions that a run asks. -/
@[local simp]
def asked : Program α → World → List Question
  | .done _, _ => []
  | .ask q next, w => q.counted ++ asked (next (w.answer q).1) (w.answer q).2
  | .pause next, w =>
    match w.yields with
    | (.finished (), later) => asked next later
    | _ => []
  | .awaitCancel next, w =>
    match w.sleeps with
    | (.finished (), later) => asked next later
    | _ => []
  | .hang, _ => []

theorem run_pause (next : Program α) (w : World) :
    run (.pause next) w = andThen (fun _ => next) w.yields :=
  run_bind (.pause (.done ())) (fun _ => next) w

theorem run_awaitCancel (next : Program α) (w : World) :
    run (.awaitCancel next) w = andThen (fun _ => next) w.sleeps :=
  run_bind (.awaitCancel (.done ())) (fun _ => next) w

theorem asked_pause {w later : World} (waited : w.yields = (.finished (), later)) (next : Program α) :
    asked (.pause next) w = asked next later := by
  rw [asked, waited]

theorem asked_awaitCancel {w later : World} (slept : w.sleeps = (.finished (), later)) (next : Program α) :
    asked (.awaitCancel next) w = asked next later := by
  rw [asked, slept]

/-- What follows a sleep has been asked to stop. -/
theorem isCancelled_of_sleeps {w later : World} (slept : w.sleeps = (.finished (), later)) :
    later.isCancelled = true := by
  simp only [sleeps, run] at slept
  rcases noticed : notice w.interrupts w with ⟨_ | _, left⟩ <;> simp only [noticed] at slept
  · by_cases stop : left.isCancelled
    · simp only [stop, if_true] at slept
      cases slept
      exact stop
    · by_cases soon : left.cancelAfter.isSome
      · simp only [stop, soon, if_true, Bool.false_eq_true, if_false] at slept
        cases slept
        rfl
      · simp only [stop, soon, Bool.false_eq_true, if_false] at slept
        cases slept
  · cases slept

theorem asked_bind (p : Program α) (f : α → Program β) (w : World) :
    asked (p >>= f) w = asked p w ++
      match run p w with
      | (.finished a, w') => asked (f a) w'
      | _ => [] := by
  change asked (p.bind f) w = _
  induction p generalizing w with
  | done a => rfl
  | ask q next ih =>
      simp only [Program.bind, asked, run, ih, List.append_assoc]
  | pause next ih =>
      simp only [Program.bind, asked, run_pause]
      rcases w.yields with ⟨_ | _ | _, later⟩
      · exact ih later
      · rfl
      · rfl
  | awaitCancel next ih =>
      simp only [Program.bind, asked, run_awaitCancel]
      rcases w.sleeps with ⟨_ | _ | _, later⟩
      · exact ih later
      · rfl
      · rfl
  | hang =>
      simp only [Program.bind, asked, run]
      rcases notice w.interrupts w with ⟨_ | _, left⟩ <;> rfl

/-! ## One poll -/

theorem run_poll (p : Program α) (w : World) : run p w = run (poll p w).result.rest (poll p w).left := by
  induction p generalizing w with
  | ask q next ih => exact ih _ _
  | _ => rfl

theorem asked_poll (p : Program α) (w : World) :
    asked p w = (poll p w).asked ++ asked (poll p w).result.rest (poll p w).left := by
  induction p generalizing w with
  | ask q next ih =>
      simp only [asked, poll, ih, List.append_assoc]
  | _ => rfl

theorem run_go (p : Program α) (w : World) :
    run (Program.untilCancelled.go p) w = run (poll p w).result.guarded (poll p w).left := by
  induction p generalizing w with
  | ask q next ih => exact ih _ _
  | _ => rfl

theorem asked_go (p : Program α) (w : World) :
    asked (Program.untilCancelled.go p) w =
      (poll p w).asked ++ asked (poll p w).result.guarded (poll p w).left := by
  induction p generalizing w with
  | ask q next ih =>
      simp only [Program.untilCancelled.go, asked, poll, ih, List.append_assoc]
  | _ => rfl

theorem run_untilCancelled_stopped (p : Program α) {w : World} (stop : w.isCancelled = true) :
    run p.untilCancelled w = (.finished none, w) ∧ asked p.untilCancelled w = [] := by
  simp [Program.untilCancelled, run, answer, stop, Question.counted]

theorem run_untilCancelled_going (p : Program α) {w : World} (going : w.isCancelled = false) :
    run p.untilCancelled w = run (poll p w).result.guarded (poll p w).left ∧
      asked p.untilCancelled w = (poll p w).asked ++ asked (poll p w).result.guarded (poll p w).left := by
  rw [← run_go, ← asked_go]
  simp [Program.untilCancelled, run, answer, going, Question.counted]

/-! ## One poll after the other -/

/-- A future is polled again and again, in worlds that have not been asked to stop; then it is due. -/
inductive Polls : Program α → World → List (List Question) → Program α → World → Prop where
  | due (p : Program α) (w : World) : Polls p w [] p w
  | again {p next q : Program α} {w later v : World} {polls : List (List Question)}
      (going : w.isCancelled = false) (pending : (poll p w).result = .pending next)
      (waited : (poll p w).left.yields = (.finished (), later)) (more : Polls next later polls q v) :
      Polls p w ((poll p w).asked :: polls) q v
  | woken {p left : Program α} {w later : World} (going : w.isCancelled = false)
      (asleep : (poll p w).result = .asleep left) (slept : (poll p w).left.sleeps = (.finished (), later)) :
      Polls p w [(poll p w).asked] left later

/-- How the race between a future and a stop ends, in which world, and after which questions. -/
inductive Raced (p : Program α) (w : World) : Option α → World → List Question → Prop where
  | stopped {polls : List (List Question)} {q : Program α} {v : World} (polled : Polls p w polls q v)
      (stop : v.isCancelled = true) : Raced p w none v polls.flatten
  | completed {polls : List (List Question)} {q : Program α} {v : World} {a : α} (polled : Polls p w polls q v)
      (going : v.isCancelled = false) (ready : (poll q v).result = .ready a) :
      Raced p w (some a) (poll q v).left (polls.flatten ++ (poll q v).asked)

theorem Raced.again {p next : Program α} {w later w' : World} {o : Option α} {acts : List Question}
    (going : w.isCancelled = false) (pending : (poll p w).result = .pending next)
    (waited : (poll p w).left.yields = (.finished (), later)) (raced : Raced next later o w' acts) :
    Raced p w o w' ((poll p w).asked ++ acts) := by
  cases raced with
  | stopped polled stop => exact .stopped (.again going pending waited polled) stop
  | completed polled ready_going ready =>
      rw [← List.append_assoc]
      exact .completed (.again going pending waited polled) ready_going ready

/-- A property of futures holds of all if it goes over from what a poll may leave. -/
theorem poll_induction {P : Program α → Prop}
    (step : ∀ p, (∀ w next, (poll p w).result = .pending next → P next) → P p) (p : Program α) : P p := by
  have both : P p ∧ ∀ w next, (poll p w).result = .pending next → P next := by
    induction p with
    | ask q next ih =>
        have later (w : World) (left : Program α) (pending : (poll (.ask q next) w).result = .pending left) : P left :=
          (ih _).2 _ left pending
        exact ⟨step _ later, later⟩
    | pause next ih =>
        have later (w : World) (left : Program α)
            (pending : (poll (.pause next) w).result = .pending left) : P left := by
          cases pending
          exact ih.1
        exact ⟨step _ later, later⟩
    | _ => exact ⟨step _ nofun, nofun⟩
  exact both.1

variable {p q : Program α} {w v w' : World} {polls : List (List Question)} {o : Option α} {acts : List Question}

/-- As long as nothing stops it, a future comes as far on its own. -/
theorem Polls.run_eq (polled : Polls p w polls q v) (going : v.isCancelled = false) :
    run p w = run q v ∧ asked p w = polls.flatten ++ asked q v := by
  induction polled with
  | due => exact ⟨rfl, rfl⟩
  | again now pending waited more ih =>
      rw [run_poll, asked_poll, pending, Polled.rest, run_pause, asked_pause waited, waited, andThen_finished,
        (ih going).1, (ih going).2, List.flatten_cons, List.append_assoc]
      exact ⟨rfl, rfl⟩
  | woken now asleep slept => cases going.symm.trans (isCancelled_of_sleeps slept)

theorem Polls.run_untilCancelled (polled : Polls p w polls q v) :
    run p.untilCancelled w = run q.untilCancelled v ∧
      asked p.untilCancelled w = polls.flatten ++ asked q.untilCancelled v := by
  induction polled with
  | due => exact ⟨rfl, rfl⟩
  | again going pending waited more ih =>
      obtain ⟨ran, counted⟩ := run_untilCancelled_going _ going
      rw [ran, counted, pending, Polled.guarded, run_pause, asked_pause waited, waited, andThen_finished, ih.1, ih.2,
        List.flatten_cons, List.append_assoc]
      exact ⟨rfl, rfl⟩
  | @woken p left w later going asleep slept =>
      obtain ⟨ran, counted⟩ := run_untilCancelled_going p going
      obtain ⟨stopped, silent⟩ := run_untilCancelled_stopped left (isCancelled_of_sleeps slept)
      rw [ran, counted, asleep, Polled.guarded, run_awaitCancel, asked_awaitCancel slept, slept, stopped, silent]
      simp [run]

theorem raced_of_run (ran : run p.untilCancelled w = (.finished o, w')) :
    Raced p w o w' (asked p.untilCancelled w) := by
  induction p using poll_induction generalizing w w' o with
  | step p ih =>
      cases stop : w.isCancelled with
      | true =>
          obtain ⟨stopped, silent⟩ := run_untilCancelled_stopped p stop
          cases ran.symm.trans stopped
          rw [silent]
          exact .stopped (.due p w) stop
      | false =>
          obtain ⟨going, counted⟩ := run_untilCancelled_going p stop
          rw [going] at ran
          rw [counted]
          cases polled : (poll p w).result with
          | ready a =>
              rw [polled] at ran
              cases ran
              simpa [Polled.guarded] using Raced.completed (.due p w) stop polled
          | pending next =>
              rw [polled, Polled.guarded, run_pause] at ran
              rcases waited : (poll p w).left.yields with ⟨_ | _ | _, later⟩ <;> rw [waited] at ran
              · rw [Polled.guarded, asked_pause waited]
                exact (ih w next polled ran).again stop polled waited
              · cases ran
              · cases ran
          | asleep left =>
              rw [polled, Polled.guarded, run_awaitCancel] at ran
              rcases slept : (poll p w).left.sleeps with ⟨_ | _ | _, later⟩ <;> rw [slept] at ran
              · cases ran
                rw [Polled.guarded, asked_awaitCancel slept]
                exact .stopped (.woken stop polled slept) (isCancelled_of_sleeps slept)
              · cases ran
              · cases ran

/-- A run until a stop ends just as the race does. -/
theorem run_untilCancelled_iff :
    run p.untilCancelled w = (.finished o, w') ∧ asked p.untilCancelled w = acts ↔ Raced p w o w' acts := by
  constructor
  · rintro ⟨ran, rfl⟩
    exact raced_of_run ran
  · intro raced
    cases raced with
    | stopped polled stop =>
        obtain ⟨stopped, silent⟩ := run_untilCancelled_stopped _ stop
        rw [polled.run_untilCancelled.1, polled.run_untilCancelled.2, stopped, silent, List.append_nil]
        exact ⟨rfl, rfl⟩
    | completed polled going ready =>
        obtain ⟨ran, counted⟩ := run_untilCancelled_going _ going
        rw [polled.run_untilCancelled.1, polled.run_untilCancelled.2, ran, counted, ready]
        simp [Polled.guarded, run]

/-- Nothing but the race itself keeps the future from its result. -/
theorem Raced.run_eq {a : α} (raced : Raced p w (some a) w' acts) :
    run p w = (.finished a, w') ∧ asked p w = acts := by
  cases raced with
  | @completed polls q v _ polled going ready =>
      obtain ⟨ran, counted⟩ := polled.run_eq going
      rw [ran, counted, run_poll, asked_poll, ready]
      simp [Polled.rest, run]

end World

end ChainRelay
