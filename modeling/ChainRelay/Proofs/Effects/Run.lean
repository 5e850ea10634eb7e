import ChainRelay.Effects.Attempt
import ChainRelay.Effects.World

/-! # Running programs piece by piece

A run of two programs in a row is the run of the second in the world that the first one leaves. An
attempt goes on only after a success, so a failed part decides the whole.
-/

namespace ChainRelay

namespace Program

theorem bind_done (p : Program α) : p.bind .done = p := by
  induction p with
  | done a => rfl
  | ask q next ih => simp only [bind, ih]
  | pause next ih => simp only [bind, ih]
  | awaitCancel next ih => simp only [bind, ih]
  | hang => rfl

theorem bind_assoc (p : Program α) (f : α → Program β) (g : β → Program γ) :
    (p.bind f).bind g = p.bind fun a => (f a).bind g := by
  induction p with
  | done a => rfl
  | ask q next ih => simp only [bind, ih]
  | pause next ih => simp only [bind, ih]
  | awaitCancel next ih => simp only [bind, ih]
  | hang => rfl

instance : LawfulMonad Program :=
  LawfulMonad.mk' Program bind_done (fun _ _ => rfl) bind_assoc

end Program

/-- A world that holds files and is silent. -/
def World.holding (files : FileTree) : World where
  files := files
  userHome := []
  replies := []
  otherwise := .silence
  isCancelled := false
  cancelAfter := none
  interruptOn := []
  interrupts := 0
  printed := []
  logLimit := none
  logged := []
  constructed := []
  requests := []

/-- The same ending with another result. -/
def Ending.map (f : α → β) : Ending α → Ending β
  | .finished a => .finished (f a)
  | .stuck => .stuck
  | .aborted => .aborted

theorem Ending.map_eq_finished_iff {f : α → β} {ending : Ending α} {b : β} :
    ending.map f = .finished b ↔ ∃ a, ending = .finished a ∧ f a = b := by
  cases ending <;> simp [map]

namespace World

/-- What follows an ended run: the next program in the world that is left, if there was a result. -/
def andThen (f : α → Program β) : Ending α × World → Ending β × World
  | (.finished a, w) => run (f a) w
  | (.stuck, w) => (.stuck, w)
  | (.aborted, w) => (.aborted, w)

@[simp] theorem andThen_finished (f : α → Program β) (a : α) (w : World) :
    andThen f (.finished a, w) = run (f a) w := rfl

@[simp] theorem run_pure (a : α) (w : World) : run (pure a : Program α) w = (.finished a, w) := rfl

@[simp] theorem run_question (q : Question) (w : World) :
    run (Program.question q) w = (.finished (w.answer q).1, (w.answer q).2) := rfl

theorem run_bind (p : Program α) (f : α → Program β) (w : World) :
    run (p >>= f) w = andThen f (run p w) := by
  change run (p.bind f) w = andThen f (run p w)
  induction p generalizing w with
  | done a => rfl
  | ask q next ih =>
      simp only [Program.bind, run]
      exact ih _ _
  | pause next ih =>
      simp only [Program.bind, run]
      cases notice w.interrupts w with
      | mk second w =>
          cases second with
          | true => rfl
          | false => exact ih _
  | awaitCancel next ih =>
      simp only [Program.bind, run]
      cases notice w.interrupts w with
      | mk second w =>
          cases second with
          | true => rfl
          | false =>
              by_cases asked : w.isCancelled
              · simp only [asked, if_true]
                exact ih _
              · by_cases later : w.cancelAfter.isSome
                · simp only [asked, later, if_true, Bool.false_eq_true, if_false]
                  exact ih _
                · simp only [asked, later, Bool.false_eq_true, if_false]
                  rfl
  | hang =>
      simp only [Program.bind, run]
      cases notice w.interrupts w with
      | mk second w => cases second <;> rfl

/-- A finished first part can be left out of a run. -/
theorem run_bind_finished {p : Program α} {f : α → Program β} {w w' : World} {a : α}
    (first : run p w = (.finished a, w')) : run (p >>= f) w = run (f a) w' := by
  rw [run_bind, first, andThen_finished]

theorem run_bind_eq_finished {p : Program α} {f : α → Program β} {w w' : World} {b : β}
    (ran : run (p >>= f) w = (.finished b, w')) :
    ∃ a middle, run p w = (.finished a, middle) ∧ run (f a) middle = (.finished b, w') := by
  rw [run_bind] at ran
  rcases first : run p w with ⟨a | _ | _, middle⟩ <;> rw [first] at ran
  · exact ⟨a, middle, rfl, ran⟩
  · cases ran
  · cases ran

theorem run_map (f : α → β) (p : Program α) (w : World) :
    run (f <$> p) w = (Ending.map f (run p w).1, (run p w).2) := by
  rw [← bind_pure_comp, run_bind]
  rcases run p w with ⟨_ | _ | _, w'⟩ <;> rfl

/-- The world after some texts have been written. -/
def write (texts : List String) (w : World) : World :=
  texts.foldl (fun w text => (w.answer (.print text)).2) w

@[simp] theorem write_nil (w : World) : write [] w = w := rfl

theorem write_append (before after : List String) (w : World) :
    write (before ++ after) w = write after (write before w) :=
  List.foldl_append

@[simp] theorem printed_afterPrint (w : World) (text : String) :
    (w.afterPrint text).printed = w.printed := by
  unfold afterPrint
  split
  · split <;> rfl
  · rfl

theorem printed_write (texts : List String) (w : World) :
    (write texts w).printed = texts.reverse ++ w.printed := by
  induction texts generalizing w with
  | nil => rfl
  | cons text rest ih =>
      change (write rest (w.answer (.print text)).2).printed = _
      rw [ih, answer, printed_afterPrint, List.reverse_cons, List.append_assoc]
      rfl

end World

namespace Attempt

/-- What follows a success; a failure stays. -/
def next (f : α → ExceptT ε Program β) : Except ε α → Program (Except ε β)
  | .ok a => (f a).run
  | .error e => pure (.error e)

theorem run_bind (x : ExceptT ε Program α) (f : α → ExceptT ε Program β) : (x >>= f).run = x.run >>= next f := by
  rw [ExceptT.run_bind]
  congr 1
  funext r
  cases r <;> rfl

/-- A part that succeeds can be left out of a run. -/
theorem run_bind_ok {x : ExceptT ε Program α} {f : α → ExceptT ε Program β} {w w' : World} {a : α}
    (first : World.run x.run w = (.finished (.ok a), w')) :
    World.run (x >>= f).run w = World.run (f a).run w' := by
  rw [run_bind, World.run_bind_finished first]
  rfl

theorem run_bind_error {x : ExceptT ε Program α} {f : α → ExceptT ε Program β} {w w' : World} {e : ε}
    (first : World.run x.run w = (.finished (.error e), w')) :
    World.run (x >>= f).run w = (.finished (.error e), w') := by
  rw [run_bind, World.run_bind_finished first]
  rfl

theorem run_lift_finished {p : Program α} {w w' : World} {a : α}
    (ran : World.run p w = (.finished a, w')) :
    World.run (liftM p : Attempt α).run w = (.finished (.ok a), w') :=
  World.run_bind_finished ran

theorem run_ofProgram_ok {report : ε → Report} {p : Program (Except ε α)} {w w' : World} {a : α}
    (ran : World.run p w = (.finished (.ok a), w')) :
    World.run (ofProgram report p).run w = (.finished (.ok a), w') :=
  World.run_bind_finished ran

theorem run_ofProgram_error {report : ε → Report} {p : Program (Except ε α)} {w w' : World} {e : ε}
    (ran : World.run p w = (.finished (.error e), w')) :
    World.run (ofProgram report p).run w = (.finished (.error (report e)), w') :=
  World.run_bind_finished ran

/-- Steps that only write are taken one after the other. -/
theorem run_forM {xs : List α} {f : α → Attempt Unit} {texts : α → List String}
    (each : ∀ x ∈ xs, ∀ w, World.run (f x).run w = (.finished (.ok ()), w.write (texts x)))
    (w : World) : World.run (forM xs f).run w = (.finished (.ok ()), w.write (xs.flatMap texts)) := by
  induction xs generalizing w with
  | nil => rfl
  | cons x rest ih =>
      rw [List.forM_cons, run_bind_ok (each x (by simp) w), List.flatMap_cons, World.write_append]
      exact ih (fun y member => each y (List.mem_cons_of_mem x member)) _

end Attempt

end ChainRelay
