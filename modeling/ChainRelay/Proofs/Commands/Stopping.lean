import ChainRelay.Proofs.Commands.Adding
import ChainRelay.Proofs.Config.Storing
import ChainRelay.Proofs.Effects.Steps

/-! # Commands that are asked to stop

A command that runs until it is asked to stop fails at the first poll that comes too late, and polls
nothing more. So a command that has been asked to stop from the beginning does only what comes before: the
height of a chain is not asked for at all, and chains are selected but not built.
-/

namespace ChainRelay

open World (asked poll Raced)

namespace Attempt

variable {a : Attempt α} {w w' : World} {r : Except Report α} {acts : List Question}

/-- The result of an attempt that was made until a stop. -/
def outcomeOf (o : Option (Except Report α)) : Except Report α :=
  o.getD (.error cancelled)

theorem run_untilCancelled (a : Attempt α) :
    (untilCancelled a).run = outcomeOf <$> Program.untilCancelled a.run := by
  rw [← bind_pure_comp]
  change (Program.untilCancelled a.run >>= _) = _
  congr 1
  funext o
  cases o <;> rfl

theorem asked_map (f : α → β) (p : Program α) (w : World) : asked (f <$> p) w = asked p w := by
  rw [← bind_pure_comp, World.asked_bind]
  rcases World.run p w with ⟨_ | _ | _, w'⟩ <;> exact List.append_nil _

/-- An attempt fails if it is stopped, and else ends as it would on its own. -/
theorem run_untilCancelled_iff :
    World.run (untilCancelled a).run w = (.finished r, w') ∧ asked (untilCancelled a).run w = acts ↔
      ∃ o, Raced a.run w o w' acts ∧ r = outcomeOf o := by
  rw [run_untilCancelled, asked_map, World.run_map]
  constructor
  · rintro ⟨ran, counted⟩
    obtain ⟨ended, left⟩ := Prod.mk.inj ran
    obtain ⟨o, finished, same⟩ := Ending.map_eq_finished_iff.mp ended
    exact ⟨o, World.run_untilCancelled_iff.mp ⟨Prod.ext finished left, counted⟩, same.symm⟩
  · rintro ⟨o, raced, rfl⟩
    obtain ⟨ran, counted⟩ := World.run_untilCancelled_iff.mpr raced
    rw [ran]
    exact ⟨rfl, counted⟩

theorem run_untilCancelled_stopped (a : Attempt α) {w : World} (stop : w.isCancelled = true) :
    World.run (untilCancelled a).run w = (.finished (.error cancelled), w) ∧ asked (untilCancelled a).run w = [] :=
  run_untilCancelled_iff.mpr ⟨none, .stopped (.due a.run w) stop, rfl⟩

/-- An attempt that is not stopped ends as it would on its own. -/
theorem run_untilCancelled_of_going {a : Attempt α} {w : World}
    (going : (World.run (untilCancelled a).run w).2.isCancelled = false) :
    World.run (untilCancelled a).run w = World.run a.run w := by
  rw [run_untilCancelled, World.run_map] at going ⊢
  rw [World.run_untilCancelled_of_going going]
  rcases World.run a.run w with ⟨_ | _ | _, left⟩ <;> rfl

theorem asked_bind_ok {x : Attempt α} {f : α → Attempt β} {b : α}
    (first : World.run x.run w = (.finished (.ok b), w')) :
    asked (x >>= f).run w = asked x.run w ++ asked (f b).run w' := by
  rw [Attempt.run_bind, World.asked_bind, first]
  rfl

theorem asked_bind_error {x : Attempt α} {f : α → Attempt β} {e : Report}
    (first : World.run x.run w = (.finished (.error e), w')) :
    asked (x >>= f).run w = asked x.run w := by
  rw [Attempt.run_bind, World.asked_bind, first]
  exact List.append_nil _

end Attempt

/-- Nobody is asked for the height of a chain after a stop. -/
theorem Ethereum.run_printHeight_stopped (ctx : Context) {w : World} (stop : w.isCancelled = true) :
    ∃ e, World.run (printHeight ctx).run w = (.finished (.error e), w) ∧ asked (printHeight ctx).run w = [] ∧
      ((ctx.matched.text? "chain").isSome → e = Attempt.cancelled) := by
  unfold printHeight
  cases given : ctx.matched.text? "chain" with
  | none => exact ⟨_, rfl, rfl, nofun⟩
  | some name =>
      obtain ⟨stopped, silent⟩ := Attempt.run_untilCancelled_stopped (heightOfChain ctx name) stop
      refine ⟨Attempt.cancelled, ?_, ?_, fun _ => rfl⟩
      · exact (Attempt.run_bind_ok rfl).trans (Attempt.run_bind_error stopped)
      · exact (Attempt.asked_bind_ok rfl).trans ((Attempt.asked_bind_error stopped).trans silent)

namespace Commands

theorem run_checkEach_stopped (ctx : Context) (chains : List ChainConfig) {w : World} (stop : w.isCancelled = true) :
    World.run (checkEach ctx chains).run w =
        (.finished (if chains = [] then .ok () else .error Attempt.cancelled), w) ∧
      asked (checkEach ctx chains).run w = [] := by
  cases chains with
  | nil => exact ⟨rfl, rfl⟩
  | cons c rest =>
      obtain ⟨stopped, silent⟩ := Attempt.run_untilCancelled_stopped
        (Attempt.ofProgram Error.report (ctx.registry.buildChain c)) stop
      unfold checkEach
      exact ⟨Attempt.run_bind_error stopped, (Attempt.asked_bind_error stopped).trans silent⟩

/-- After a stop the chains to check are still selected, and none is built. -/
theorem run_checkChains_stopped {ctx : Context} {w : World} {settings : RelayerConfig} {chains : List ChainConfig}
    (stop : w.isCancelled = true) (loaded : w.files.Settles (settingsPath (ctx.homeIn w)) settings)
    (selected : selectedChains settings (ctx.matched.text? "chain") = .ok chains) :
    World.run (checkChains ctx).run w =
        (.finished (if chains = [] then .ok () else .error Attempt.cancelled), w) ∧
      asked (checkChains ctx).run w = asked ctx.loadSettings.run w := by
  have first := run_loadSettings_of_settles loaded
  have second : World.run (Attempt.ofExcept id (selectedChains settings (ctx.matched.text? "chain"))).run w =
      (.finished (.ok chains), w) := by
    rw [selected]
    rfl
  have silent : asked (Attempt.ofExcept id (selectedChains settings (ctx.matched.text? "chain"))).run w = [] := by
    rw [selected]
    rfl
  obtain ⟨stopped, nothing⟩ := run_checkEach_stopped ctx chains stop
  unfold checkChains
  rw [Attempt.run_bind_ok first, Attempt.run_bind_ok second, Attempt.asked_bind_ok first,
    Attempt.asked_bind_ok second, silent, nothing]
  exact ⟨stopped, List.append_nil _⟩

end Commands

/-- A future that runs until a stop is polled up to the first poll that comes after the stop, and no more; if it
completes before, its output is kept. So a command that is asked to stop from the beginning does only what comes
before the first such poll. -/
theorem stop_wins :
    (∀ (α : Type) (a : Attempt α) (w w' : World) (r : Except Report α) (acts : List Question),
      World.run (Attempt.untilCancelled a).run w = (.finished r, w') ∧
          asked (Attempt.untilCancelled a).run w = acts ↔
        ∃ o, Raced a.run w o w' acts ∧ r = Attempt.outcomeOf o) ∧
    (∀ (α : Type) (a : Attempt α) (w w' : World) (r : Except Report α) (acts : List Question),
      Raced a.run w (some r) w' acts → World.run a.run w = (.finished r, w') ∧ asked a.run w = acts) ∧
    (∀ (ctx : Context) (w : World), w.isCancelled = true →
      ∃ e, World.run (Ethereum.printHeight ctx).run w = (.finished (.error e), w) ∧
        asked (Ethereum.printHeight ctx).run w = [] ∧
        ((ctx.matched.text? "chain").isSome → e = Attempt.cancelled)) ∧
    ∀ (ctx : Context) (w : World) (settings : RelayerConfig) (chains : List ChainConfig), w.isCancelled = true →
      w.files.Settles (settingsPath (ctx.homeIn w)) settings →
      Commands.selectedChains settings (ctx.matched.text? "chain") = .ok chains →
      World.run (Commands.checkChains ctx).run w =
          (.finished (if chains = [] then .ok () else .error Attempt.cancelled), w) ∧
        asked (Commands.checkChains ctx).run w = asked ctx.loadSettings.run w := by
  refine ⟨?_, ?_, ?_, ?_⟩
  · intro α a w w' r acts
    exact Attempt.run_untilCancelled_iff
  · intro α a w w' r acts raced
    exact raced.run_eq
  · intro ctx w stop
    exact Ethereum.run_printHeight_stopped ctx stop
  · intro ctx w settings chains stop loaded selected
    exact Commands.run_checkChains_stopped stop loaded selected

/-- A command line that names one of the chains of a settings file. -/
def chainContext : Context where
  matched :=
    [⟨"chain", .text, .commandLine, .values [RawText.ofString "a"]⟩,
      ⟨homeOption, .path, .commandLine, .values [FilePath.ofString "h"]⟩]
  registry := .empty

/-- The world with that settings file, after a stop. -/
def stoppedWorld : World :=
  { World.holding
      { root := [(FilePath.ofString "h", .folder [(FilePath.ofString "config",
          .folder [(FilePath.ofString "config.json", .file disabledChain.encode)])])]
        here := [] } with
    isCancelled := true }

/-- A world that is asked to stop at the first pause. -/
def stoppingWorld : World :=
  { World.holding ⟨[], []⟩ with cancelAfter := some 1 }

/-- A stop wins over a result that comes with the same poll, and over the first chain. -/
theorem stop_wins_together :
    World.run (Attempt.untilCancelled (ExceptT.mk (.pause (.done (.ok 1))) : Attempt Nat)).run stoppingWorld =
        (.finished (.error Attempt.cancelled), { World.holding ⟨[], []⟩ with isCancelled := true }) ∧
      World.run (Commands.checkChains chainContext).run stoppedWorld =
        (.finished (.error Attempt.cancelled), stoppedWorld) ∧
      ∃ e, World.run (Ethereum.printHeight chainContext).run stoppedWorld = (.finished (.error e), stoppedWorld) := by
  refine ⟨?_, ?_, ?_⟩
  · refine ((stop_wins.1 Nat _ stoppingWorld _ _ []).mpr ⟨none, ?_, rfl⟩).1
    exact .stopped (.again rfl rfl rfl (.due _ _)) rfl
  · refine (stop_wins.2.2.2 chainContext stoppedWorld disabledChain disabledChain.chains rfl ?_ rfl).1
    exact ⟨disabledChain.encode, rfl, storable_disabledChain.ofContent _⟩
  · obtain ⟨e, stopped, -⟩ := stop_wins.2.2.1 chainContext stoppedWorld rfl
    exact ⟨e, stopped⟩

end ChainRelay
