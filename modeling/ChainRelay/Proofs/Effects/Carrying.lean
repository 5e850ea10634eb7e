import ChainRelay.Proofs.Effects.Run

/-! # What runs keep

What every answer and every wait keeps, a run keeps. A program may not ask everything, so it is enough to
look at the answers to what it does ask.
-/

namespace ChainRelay

namespace Program

/-- All questions that the program asks have the property. -/
def Only (P : Question → Prop) : Program α → Prop
  | .done _ => True
  | .ask q next => P q ∧ ∀ answer, Only P (next answer)
  | .pause next => Only P next
  | .awaitCancel next => Only P next
  | .hang => True

variable {P : Question → Prop}

theorem only_true (p : Program α) : p.Only fun _ => True := by
  induction p with
  | done | hang => trivial
  | ask q next ih => exact ⟨trivial, ih⟩
  | pause next ih => exact ih
  | awaitCancel next ih => exact ih

theorem Only.bind {p : Program α} (only : p.Only P) {f : α → Program β} (more : ∀ a, (f a).Only P) :
    (p >>= f).Only P := by
  change (p.bind f).Only P
  induction p with
  | done a => exact more a
  | ask q next ih => exact ⟨only.1, fun answer => ih answer (only.2 answer)⟩
  | pause next ih => exact ih only
  | awaitCancel next ih => exact ih only
  | hang => trivial

theorem Only.within {p : Program α} (only : p.Only P) (logs : ∀ entry, P (.log entry)) (span : String) :
    (within span p).Only P := by
  induction p with
  | done | hang => trivial
  | ask q next ih =>
      have later := fun answer => ih answer (only.2 answer)
      cases q with
      | log entry => exact ⟨logs _, later⟩
      | _ => exact ⟨only.1, later⟩
  | pause next ih => exact ih only
  | awaitCancel next ih => exact ih only

end Program

namespace World

/-- A relation between worlds that goes over from what a program waits for and is answered to its run. -/
structure Carried (P : Question → Prop) (R : World → World → Prop) : Prop where
  refl : ∀ w, R w w
  trans : ∀ {w w' w''}, R w w' → R w' w'' → R w w''
  answer : ∀ w q, P q → R w (w.answer q).2
  interrupted : ∀ w, R w w.interrupted.2
  pass : ∀ w, R w w.pass
  stop : ∀ w, R w { w with isCancelled := true, cancelAfter := none }

variable {P : Question → Prop} {R : World → World → Prop}

theorem Carried.notice (carried : Carried P R) (fuel : Nat) (w : World) : R w (notice fuel w).2 := by
  induction fuel generalizing w with
  | zero => exact carried.refl w
  | succ fuel ih =>
      have once := carried.interrupted w
      rw [World.notice]
      split
      · exact carried.refl w
      · rcases second : w.interrupted with ⟨_ | _, left⟩ <;> rw [second] at once
        · exact carried.trans once (ih left)
        · exact once

theorem Carried.run (carried : Carried P R) {p : Program α} (only : p.Only P) (w : World) :
    R w (run p w).2 := by
  induction p generalizing w with
  | done a => exact carried.refl w
  | ask q next ih => exact carried.trans (carried.answer w q only.1) (ih _ (only.2 _) _)
  | pause next ih =>
      have kept := carried.notice w.interrupts w
      simp only [World.run]
      rcases noticed : World.notice w.interrupts w with ⟨_ | _, left⟩ <;> rw [noticed] at kept
      · exact carried.trans kept (carried.trans (carried.pass left) (ih only left.pass))
      · exact kept
  | awaitCancel next ih =>
      have kept := carried.notice w.interrupts w
      simp only [World.run]
      rcases noticed : World.notice w.interrupts w with ⟨_ | _, left⟩ <;> rw [noticed] at kept
      · dsimp only
        split
        · exact carried.trans kept (ih only left)
        · split
          · exact carried.trans kept (carried.trans (carried.stop left) (ih only _))
          · exact kept
      · exact kept
  | hang =>
      have kept := carried.notice w.interrupts w
      simp only [World.run]
      rcases noticed : World.notice w.interrupts w with ⟨_ | _, left⟩ <;> rwa [noticed] at kept

end World

end ChainRelay
