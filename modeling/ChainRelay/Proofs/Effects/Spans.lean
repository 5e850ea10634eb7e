import ChainRelay.Proofs.Effects.Run

/-! # Runs inside a span

A span shows up in the log and nowhere else, since no program can read the log. So a program ends in the
same way inside a span, in a world that is the same but for its log.
-/

namespace ChainRelay

namespace World

/-- The same world with another log. -/
def relog (w : World) (entries : List LogEntry) : World :=
  { w with logged := entries }

@[simp] theorem relog_logged (w : World) : w.relog w.logged = w := rfl

@[simp] theorem relog_relog (w : World) (entries entries' : List LogEntry) :
    (w.relog entries).relog entries' = w.relog entries' := rfl

theorem keep_eq (w : World) (entry : LogEntry) : ∃ entries, w.keep entry = w.relog entries := by
  unfold keep
  split <;> exact ⟨_, rfl⟩

/-- A log entry changes nothing but the log. -/
theorem run_log (level : LogLevel) (source : LogSource) (message : String) (w : World) :
    ∃ entries, run (Program.log level source message) w = (.finished (), w.relog entries) := by
  obtain ⟨entries, kept⟩ := keep_eq w { level, spans := [], source, message }
  exact ⟨entries, congrArg _ kept⟩

theorem keep_relog (w : World) (before : List LogEntry) (entry entry' : LogEntry) :
    ∃ after, (w.relog before).keep entry = (w.keep entry').relog after := by
  obtain ⟨after, kept⟩ := keep_eq (w.relog before) entry
  obtain ⟨after', kept'⟩ := keep_eq w entry'
  exact ⟨after, by rw [kept, kept', relog_relog, relog_relog]⟩

theorem afterPrint_relog (w : World) (entries : List LogEntry) (text : String) :
    (w.relog entries).afterPrint text = (w.afterPrint text).relog entries := by
  cases lines : w.interruptOn with
  | nil => simp [afterPrint, relog, lines]
  | cons line rest => by_cases same : text = line ++ "\n" <;> simp [afterPrint, relog, lines, same]

theorem settle_relog (w : World) (entries : List LogEntry) (r : Except FileFault FileTree) :
    (w.relog entries).settle r = ((w.settle r).1, (w.settle r).2.relog entries) := by
  cases r <;> rfl

theorem answer_relog (w : World) (before : List LogEntry) (q : Question) :
    ∃ after, (w.relog before).answer q = ((w.answer q).1, (w.answer q).2.relog after) := by
  cases q with
  | print text =>
      exact ⟨before, congrArg (Prod.mk ()) (afterPrint_relog { w with printed := text :: w.printed } before text)⟩
  | openLog limit =>
      refine ⟨before, ?_⟩
      by_cases opened : w.logLimit.isSome <;> simp [answer, relog, opened]
  | log entry =>
      obtain ⟨after, kept⟩ := keep_relog w before entry entry
      exact ⟨after, congrArg _ kept⟩
  | writeFile path content =>
      exact ⟨before, settle_relog w before (w.files.write path content)⟩
  | createFoldersAround path =>
      refine ⟨before, ?_⟩
      rcases made : w.files.createFoldersAround path with ⟨files, _ | e⟩ <;> simp [answer, relog, made]
  | post address body =>
      refine ⟨before, ?_⟩
      cases left : w.replies <;> simp [answer, relog, left]
  | readFile | listFolder | fileExists | userHome | isCancelled | construct => exact ⟨before, rfl⟩

theorem interrupted_relog (w : World) (before : List LogEntry) :
    ∃ after, (w.relog before).interrupted = (w.interrupted.1, w.interrupted.2.relog after) := by
  have same : (w.relog before).isCancelled = w.isCancelled := rfl
  simp only [interrupted, same]
  split
  · obtain ⟨after, kept⟩ := keep_relog { w with interrupts := w.interrupts - 1 } before _ _
    exact ⟨after, congrArg _ kept⟩
  · obtain ⟨after, kept⟩ := keep_relog { w with interrupts := w.interrupts - 1, isCancelled := true } before _ _
    exact ⟨after, congrArg _ kept⟩

theorem notice_relog (fuel : Nat) (w : World) (before : List LogEntry) :
    ∃ after, notice fuel (w.relog before) = ((notice fuel w).1, (notice fuel w).2.relog after) := by
  induction fuel generalizing w before with
  | zero => exact ⟨before, rfl⟩
  | succ fuel ih =>
      have same : (w.relog before).interrupts = w.interrupts := rfl
      simp only [notice, same]
      by_cases none : w.interrupts = 0
      · simp only [none, if_true]
        exact ⟨before, rfl⟩
      · obtain ⟨after, noticed⟩ := interrupted_relog w before
        simp only [none, if_false, noticed]
        rcases w.interrupted with ⟨_ | _, left⟩
        · exact ih left after
        · exact ⟨after, rfl⟩

theorem pass_relog (w : World) (entries : List LogEntry) :
    (w.relog entries).pass = w.pass.relog entries := by
  rcases later : w.cancelAfter with _ | _ | _ | n <;> simp [pass, relog, later]

theorem run_within (span : String) (p : Program α) (w : World) (before : List LogEntry) :
    ∃ after, run (p.within span) (w.relog before) = ((run p w).1, (run p w).2.relog after) := by
  induction p generalizing w before with
  | done a => exact ⟨before, rfl⟩
  | ask q next ih =>
      obtain ⟨after, answered⟩ := answer_relog w before q
      cases q with
      | log entry =>
          obtain ⟨after, kept⟩ := keep_relog w before (entry.within span) entry
          simp only [Program.within, run, answer, kept]
          exact ih () _ after
      | _ =>
          simp only [Program.within, run, answered]
          exact ih _ _ after
  | pause next ih =>
      obtain ⟨after, noticed⟩ := notice_relog w.interrupts w before
      change notice (w.relog before).interrupts _ = _ at noticed
      simp only [Program.within, run, noticed]
      rcases notice w.interrupts w with ⟨_ | _, left⟩
      · simp only [pass_relog]
        exact ih left.pass after
      · exact ⟨after, rfl⟩
  | awaitCancel next ih =>
      obtain ⟨after, noticed⟩ := notice_relog w.interrupts w before
      change notice (w.relog before).interrupts _ = _ at noticed
      simp only [Program.within, run, noticed]
      rcases notice w.interrupts w with ⟨_ | _, left⟩
      · have asked : (left.relog after).isCancelled = left.isCancelled := rfl
        have later : (left.relog after).cancelAfter = left.cancelAfter := rfl
        simp only [asked, later]
        split
        · exact ih left after
        · split
          · exact ih { left with isCancelled := true, cancelAfter := none } after
          · exact ⟨after, rfl⟩
      · exact ⟨after, rfl⟩
  | hang =>
      obtain ⟨after, noticed⟩ := notice_relog w.interrupts w before
      change notice (w.relog before).interrupts _ = _ at noticed
      simp only [Program.within, run, noticed]
      rcases notice w.interrupts w with ⟨_ | _, left⟩ <;> exact ⟨after, rfl⟩

end World

end ChainRelay
