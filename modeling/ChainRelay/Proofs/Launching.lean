import ChainRelay.Launch
import ChainRelay.Proofs.Command.Selection
import ChainRelay.Proofs.Command.Unset
import ChainRelay.Proofs.Composition
import ChainRelay.Proofs.Effects.Harmless

/-! # What a process does

A process composes its application, starts the log, and runs the command that its arguments select, if
they select one. Up to that command it changes no files.
-/

namespace ChainRelay

/-- A log that is not open keeps nothing. -/
theorem World.run_logAll {w : World} (closed : w.logLimit = none) (entries : List LogEntry) :
    World.run (Program.logAll entries) w = (.finished (), w) := by
  induction entries with
  | nil => rfl
  | cons entry rest ih =>
      have kept : w.keep entry = w := by
        rw [World.keep, closed]
        rfl
      rw [Program.logAll, World.run, World.answer]
      dsimp only
      rw [kept, ih]

namespace Launch

/-- The arguments select a command of the application that is composed of the modules. -/
def Selects (modules : List Module) (env : Environment) (argv : List RawText) (app : App)
    (i : Invocation Handler) : Prop :=
  App.build (programName argv) (some about) (some version) env modules = .ok app ∧
    app.route argv = .ok (.invocation i)

variable {modules : List Module} {env : Environment} {argv : List RawText} {app : App}
  {i : Invocation Handler}

/-- A selected command is one that the application was composed of. -/
theorem Selects.offered (selected : Selects modules env argv app i) :
    ∃ x ∈ App.offers env modules, x.path = i.path ∧ x.2.handler = some i.handler := by
  obtain ⟨built, routed⟩ := selected
  have grown := (App.build_grown built).sealed
  exact (grown.selects (App.route_eq_ok_iff.mp routed)).claimed

theorem harmless_startLog (env : Environment) (matched : Args.Matches) {waits : Prop} :
    Attempt.Harmless waits (fun _ => True) (startLog env matched) := by
  have asked (level : LogLevel) : Attempt.Harmless waits (fun _ => True)
      (liftM (Program.question (.openLog level)) : Attempt Bool) :=
    Attempt.harmless_lift (Program.harmless_question (q := .openLog level) trivial)
  refine Attempt.Harmless.bind (asked _) fun started _ => ?_
  have warned (fault : String) : Attempt.Harmless waits (fun _ => True)
      (liftM (Program.log .warn .observability ("OpenTelemetry disabled error=" ++ fault))) :=
    Attempt.harmless_lift (Program.harmless_log _ _ _)
  dsimp only
  split
  · refine Attempt.Harmless.bind (P := fun _ => True) (Attempt.harmless_fail _) fun _ _ => ?_
    split
    · exact warned _
    · exact Attempt.harmless_pure trivial
  · split
    · exact warned _
    · exact Attempt.harmless_pure trivial

/-- A log that is not open can be opened. -/
theorem run_startLog {w : World} (closed : w.logLimit = none) (env : Environment) (matched : Args.Matches) :
    ∃ w', World.run (startLog env matched).run w = (.finished (.ok ()), w') := by
  have opened (limit : LogLevel) :
      World.run (liftM (Program.question (.openLog limit)) : Attempt Bool).run w =
        (.finished (.ok true), { w with logLimit := some limit }) := by
    have asked : World.run (Program.question (.openLog limit)) w =
        (.finished true, { w with logLimit := some limit }) := by
      rw [World.run_question, World.answer, closed]
      rfl
    exact Attempt.run_lift_finished asked
  unfold startLog
  cases fault : (matched.text? App.collectorOption).bind (collectorFault? env) with
  | none => exact ⟨_, Attempt.run_bind_ok (opened _)⟩
  | some fault => exact ⟨_, Attempt.run_bind_ok (opened _)⟩

/-- A process that selects no command changes no files. -/
theorem harmless_launch (none : ∀ app i, ¬Selects modules env argv app i) :
    (launch modules env argv).Harmless False fun _ => True := by
  unfold launch
  refine (Program.harmless_logAll _).bind fun _ _ => ?_
  split
  · trivial
  · rename_i app built
    split
    · trivial
    · exact (Program.harmless_print _).bind fun _ _ => trivial
    · rename_i i app' parsed
      refine absurd ⟨built, ?_⟩ (none app i)
      rw [App.route, parsed]

/-- A process that selects a command runs it, unless its log has been opened before. -/
theorem run_launch (selected : Selects modules env argv app i) (w : World) :
    ∃ w', w.SameDisk w' ∧
      ((w.logLimit ≠ none ∧
          ∃ report, World.run (launch modules env argv) w = (.finished (.error (.observability report)), w')) ∨
        World.run (launch modules env argv) w =
          let ran := World.run (i.handler { matched := i.matched, registry := app.registry }).run w'
          (ran.1.map App.outcome, ran.2)) := by
  obtain ⟨built, routed⟩ := selected
  have parsed : app.parse argv = (.ok (.invocation i), (app.parse argv).2) := Prod.ext routed rfl
  obtain ⟨_, w₁, logged, first⟩ := World.run_prompt (Program.harmless_logAll
    (App.buildLog (programName argv) modules (.ok app))) w
  obtain ⟨r, w₂, started, second⟩ := World.run_prompt (harmless_startLog env i.matched) w₁
  unfold launch
  simp only [built]
  rw [World.run_bind_finished logged, parsed]
  dsimp only
  rw [World.run_bind_finished started]
  rcases r with report | ⟨⟩
  · refine ⟨w₂, first.trans second, .inl ⟨fun closed => ?_, report, rfl⟩⟩
    obtain rfl : w = w₁ := by
      rw [World.run_logAll closed, Prod.mk.injEq] at logged
      exact logged.2
    obtain ⟨w', opened⟩ := run_startLog closed env i.matched
    rw [opened] at started
    cases started
  · refine ⟨w₂.keep (App.dispatchEntry i), (first.trans second).trans (World.sameDisk_keep _ _), .inr ?_⟩
    have same : (app.parse argv).2.registry = app.registry := by
      unfold App.parse
      split <;> rfl
    change World.run (App.runInvocation (app.parse argv).2.registry i) w₂ = _
    rw [same]
    exact App.run_runInvocation app.registry i w₂

end Launch

end ChainRelay
