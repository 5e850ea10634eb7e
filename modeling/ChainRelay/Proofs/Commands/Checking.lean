import ChainRelay.Proofs.Commands.Stopping
import ChainRelay.Proofs.Registration.Building

/-! # Checking chains

`chains check` builds the backends of the selected chains one after the other: for each chain the signer, if it
has one, then the chain itself and then the prover. After each chain it writes a line. It ends at the first backend
that cannot be built, with the error of that backend.
-/

namespace ChainRelay

namespace Registry

variable {r : Registry} {c : ChainConfig} {call : Role × BackendConfig} {w w' : World} {e : Error}

/-- The backends that are built for a chain, in order. -/
def callsOf (c : ChainConfig) : List (Role × BackendConfig) :=
  (c.signer.map (Role.signer, ·)).toList ++ [(.chain, c.chain), (.prover, c.prover)]

/-- Build a backend of which only the success counts. -/
def build (r : Registry) (call : Role × BackendConfig) : ExceptT Error Program Unit := do
  let _ ← ExceptT.mk (r.buildBackend call.1 call.2)

theorem run_build (r : Registry) (call : Role × BackendConfig) :
    (r.build call).run = Except.map (fun _ => ()) <$> r.buildBackend call.1 call.2 := by
  rw [build, Attempt.run_bind, ← bind_pure_comp]
  refine bind_congr fun built => ?_
  cases built <;> rfl

/-- Build the chain and the prover to go with a signer. -/
def buildBehind (r : Registry) (c : ChainConfig) (signer : Option Backend) : Program (Except Error ChainBackends) := do
  match ← r.buildBackend .chain c.chain with
  | .error e => return .error e
  | .ok chain =>
    match ← r.buildBackend .prover c.prover with
    | .error e => return .error e
    | .ok prover => return .ok { chain, signer, prover }

theorem map_bind_buildBackend (call : Role × BackendConfig)
    {f : Except Error Backend → Program (Except Error ChainBackends)}
    {more : List (Role × BackendConfig)} (refused : ∀ e, f (.error e) = pure (.error e))
    (built : ∀ b, Except.map (fun _ => ()) <$> f (.ok b) = (forM more r.build).run) :
    Except.map (fun _ => ()) <$> (r.buildBackend call.1 call.2 >>= f) = (forM (call :: more) r.build).run := by
  rw [List.forM_cons, Attempt.run_bind, run_build, map_bind, bind_map_left]
  refine bind_congr fun result => ?_
  cases result with
  | error e =>
      rw [refused]
      rfl
  | ok b => exact built b

theorem map_buildBehind (r : Registry) (c : ChainConfig) (signer : Option Backend) :
    Except.map (fun _ => ()) <$> r.buildBehind c signer =
      (forM [(.chain, c.chain), (.prover, c.prover)] r.build : ExceptT Error Program Unit).run := by
  refine map_bind_buildBackend (.chain, c.chain) (fun e => rfl) fun chain => ?_
  exact map_bind_buildBackend (.prover, c.prover) (fun e => rfl) fun prover => rfl

/-- A chain is built by building its backends in turn. -/
theorem map_buildChain (r : Registry) (c : ChainConfig) :
    Except.map (fun _ => ()) <$> r.buildChain c = (forM (callsOf c) r.build).run := by
  unfold buildChain callsOf
  cases c.signer with
  | none => exact map_buildBehind r c none
  | some s =>
      exact map_bind_buildBackend (.signer, s) (fun e => rfl) fun b => map_buildBehind r c (some b)

theorem run_map_ok_iff {p : Program (Except ε α)} : World.run (Except.map (fun _ => ()) <$> p) w =
    (.finished (.ok ()), w') ↔ ∃ a, World.run p w = (.finished (.ok a), w') := by
  rw [World.run_map]
  rcases World.run p w with ⟨⟨_ | a⟩ | _ | _, left⟩ <;> simp [Ending.map, Except.map]

theorem run_map_error_iff {p : Program (Except ε α)} {e : ε} : World.run (Except.map (fun _ => ()) <$> p) w =
    (.finished (.error e), w') ↔ World.run p w = (.finished (.error e), w') := by
  rw [World.run_map]
  rcases World.run p w with ⟨⟨_ | a⟩ | _ | _, left⟩ <;> simp [Ending.map, Except.map]

theorem run_build_ok_iff : World.run (r.build call).run w = (.finished (.ok ()), w') ↔
    ∃ b, World.run (r.buildBackend call.1 call.2) w = (.finished (.ok b), w') := by
  rw [run_build, run_map_ok_iff]

theorem run_build_error_iff : World.run (r.build call).run w = (.finished (.error e), w') ↔
    World.run (r.buildBackend call.1 call.2) w = (.finished (.error e), w') := by
  rw [run_build, run_map_error_iff]

theorem run_buildChain_ok_iff :
    (∃ built, World.run (r.buildChain c) w = (.finished (.ok built), w')) ↔ InTurn r.build w (callsOf c) w' := by
  rw [← run_map_ok_iff, map_buildChain, run_forM_ok_iff]

theorem run_buildChain_error_iff :
    World.run (r.buildChain c) w = (.finished (.error e), w') ↔ BreaksOff r.build w (callsOf c) e w' := by
  rw [← run_map_error_iff, map_buildChain, run_forM_error_iff]

/-- The calls of factories that some backends come down to. -/
def constructions (r : Registry) (calls : List (Role × BackendConfig)) : List Construction :=
  calls.flatMap fun call => (r.call? call.1 call.2).toList

theorem constructed_of_built (plain : r.Plain) {ending : Ending (Except Error Backend)}
    (ran : World.run (r.buildBackend call.1 call.2) w = (ending, w')) :
    w'.constructed = (r.constructions [call]).reverse ++ w.constructed := by
  have counted := constructed_buildBackend plain call.1 call.2 w
  rw [ran] at counted
  rw [counted, constructions, List.flatMap_singleton]
  cases r.call? call.1 call.2 <;> rfl

theorem constructed_of_turns (plain : r.Plain) {calls : List (Role × BackendConfig)}
    (built : InTurn r.build w calls w') : w'.constructed = (r.constructions calls).reverse ++ w.constructed := by
  have each (call : Role × BackendConfig) (v v' : World)
      (ran : World.run (r.build call).run v = (.finished (.ok ()), v')) :
      v'.constructed = (r.constructions [call]).reverse ++ v.constructed := by
    obtain ⟨b, ran⟩ := run_build_ok_iff.mp ran
    exact constructed_of_built plain ran
  rw [built.recorded each]
  simp [constructions]

/-- The factories of the registry write nothing. -/
def Silent (r : Registry) : Prop :=
  ∀ p ∈ r.providers, ∀ role create, p.factory role = .ok create → ∀ v, (create v).Only fun q => ∀ text, q ≠ .print text

theorem Silent.only_buildBackend (silent : r.Silent) (role : Role) (c : BackendConfig) :
    (r.buildBackend role c).Only fun q => ∀ text, q ≠ .print text := by
  refine Program.Only.within ?_ (fun entry => nofun) _
  split
  · trivial
  · rename_i position create found
    obtain ⟨p, member, made⟩ := factory_of_factoryFor found
    refine ⟨nofun, fun _ => (silent p member role create made c.config).bind fun built => ?_⟩
    split
    · trivial
    · exact ⟨nofun, fun _ => trivial⟩

theorem Silent.printed_of_built (silent : r.Silent) {role : Role} {c : BackendConfig}
    {ending : Ending (Except Error Backend)} (ran : World.run (r.buildBackend role c) w = (ending, w')) :
    w'.printed = w.printed := by
  have kept := World.carried_printed.run (silent.only_buildBackend role c) w
  rwa [ran] at kept

theorem Silent.printed_of_turns (silent : r.Silent) {calls : List (Role × BackendConfig)}
    (built : InTurn r.build w calls w') : w'.printed = w.printed := by
  induction built with
  | nil => rfl
  | cons here _ ih =>
      obtain ⟨b, ran⟩ := run_build_ok_iff.mp here
      exact ih.trans (silent.printed_of_built ran)

end Registry

namespace Commands

variable {ctx : Context} {r : Registry} {c : ChainConfig} {chains : List ChainConfig} {settings : RelayerConfig}
  {w w' : World} {e : Report} {result : Except Report Unit}

/-- What is written about a chain that has been built. -/
def okText (c : ChainConfig) : String :=
  c.name ++ ": ok (" ++ c.describe ++ ")" ++ "\n"

/-- Build a chain, whether or not the program is asked to stop. -/
def visit (r : Registry) (c : ChainConfig) : Attempt Unit := do
  let _ ← Attempt.ofProgram Error.report (r.buildChain c)
  Program.printLine (c.name ++ ": ok (" ++ c.describe ++ ")")

/-- The run of a visit, from the run that builds the chain. -/
def visited (c : ChainConfig) : Ending (Except Error ChainBackends) × World → Ending (Except Report Unit) × World
  | (.finished (.ok _), middle) => (.finished (.ok ()), middle.write [okText c])
  | (.finished (.error err), w) => (.finished (.error err.report), w)
  | (.stuck, w) => (.stuck, w)
  | (.aborted, w) => (.aborted, w)

theorem run_visit (r : Registry) (c : ChainConfig) (w : World) :
    World.run (visit r c).run w = visited c (World.run (r.buildChain c) w) := by
  have made : (Attempt.ofProgram Error.report (r.buildChain c)).run =
      r.buildChain c >>= fun built => pure (built.mapError Error.report) := by
    refine bind_congr fun built => ?_
    cases built <;> rfl
  rw [visit, Attempt.run_bind, made, bind_assoc, World.run_bind]
  rcases World.run (r.buildChain c) w with ⟨⟨_ | built⟩ | _ | _, middle⟩ <;> rfl

theorem run_visit_ok_iff : World.run (visit r c).run w = (.finished (.ok ()), w') ↔
    ∃ built middle, World.run (r.buildChain c) w = (.finished (.ok built), middle) ∧
      w' = middle.write [okText c] := by
  rw [run_visit]
  rcases World.run (r.buildChain c) w with ⟨⟨_ | built⟩ | _ | _, middle⟩ <;> simp [visited, eq_comm]

theorem run_visit_error_iff : World.run (visit r c).run w = (.finished (.error e), w') ↔
    ∃ err, World.run (r.buildChain c) w = (.finished (.error err), w') ∧ e = err.report := by
  rw [run_visit]
  rcases World.run (r.buildChain c) w with ⟨⟨err | built⟩ | _ | _, middle⟩ <;> simp [visited]
  grind

/-- Chains are visited one after the other as long as nothing stops that. -/
theorem run_checkEach (never : (World.run (checkEach ctx chains).run w).2.isCancelled = false) :
    World.run (checkEach ctx chains).run w = World.run (forM chains (visit ctx.registry)).run w := by
  induction chains generalizing w with
  | nil => rfl
  | cons c rest ih =>
      rw [checkEach, Attempt.run_bind] at never
      have same := Attempt.run_untilCancelled_of_going (World.going_of_bind never)
      rw [World.run_bind, same] at never
      rw [checkEach, Attempt.run_bind, World.run_bind, same, List.forM_cons, visit, bind_assoc, Attempt.run_bind,
        World.run_bind]
      rcases ran : World.run (Attempt.ofProgram Error.report (ctx.registry.buildChain c)).run w with
        ⟨⟨_ | built⟩ | _ | _, middle⟩ <;> rw [ran] at never
      · rfl
      · exact ih never
      · rfl
      · rfl

theorem run_checkChains (loaded : w.files.Settles (settingsPath (ctx.homeIn w)) settings)
    (selected : selectedChains settings (ctx.matched.text? "chain") = .ok chains) :
    World.run (checkChains ctx).run w = World.run (checkEach ctx chains).run w := by
  have second : World.run (Attempt.ofExcept id (selectedChains settings (ctx.matched.text? "chain"))).run w =
      (.finished (.ok chains), w) := by
    rw [selected]
    rfl
  rw [checkChains, Attempt.run_bind_ok (run_loadSettings_of_settles loaded), Attempt.run_bind_ok second]

/-- What checking chains comes to, after which calls and lines: all chains are visited, or the first backend that
cannot be built decides. -/
inductive Checked (r : Registry) (w : World) :
    List ChainConfig → List (Role × BackendConfig) → List String → Except Report Unit → World → Prop where
  | passed {chains : List ChainConfig} {w' : World} (visited : InTurn (visit r) w chains w') :
      Checked r w chains (chains.flatMap Registry.callsOf) (chains.map okText) (.ok ()) w'
  | failed (before : List ChainConfig) (c : ChainConfig) (after : List ChainConfig)
      (front : List (Role × BackendConfig)) (call : Role × BackendConfig) (back : List (Role × BackendConfig))
      {middle late w' : World} {err : Error} (visited : InTurn (visit r) w before middle)
      (calls : Registry.callsOf c = front ++ call :: back) (built : InTurn r.build middle front late)
      (refused : World.run (r.buildBackend call.1 call.2) late = (.finished (.error err), w')) :
      Checked r w (before ++ c :: after) (before.flatMap Registry.callsOf ++ front ++ [call]) (before.map okText)
        (.error err.report) w'

theorem run_visits_iff : World.run (forM chains (visit r)).run w = (.finished result, w') ↔
    ∃ calls lines, Checked r w chains calls lines result w' := by
  cases result with
  | ok =>
      rw [run_forM_ok_iff]
      constructor
      · exact fun visited => ⟨_, _, .passed visited⟩
      · rintro ⟨_, _, ⟨visited⟩⟩
        exact visited
  | error e =>
      rw [run_forM_error_iff]
      constructor
      · rintro ⟨before, c, after, rfl, visited, failed⟩
        obtain ⟨err, broke, rfl⟩ := run_visit_error_iff.mp failed
        obtain ⟨front, call, back, split, built, refused⟩ := Registry.run_buildChain_error_iff.mp broke
        exact ⟨_, _, .failed before c after front call back visited split built
          (Registry.run_build_error_iff.mp refused)⟩
      · rintro ⟨_, _, _ | ⟨before, c, after, front, call, back, visited, split, built, refused⟩⟩
        refine .at before c after rfl visited (run_visit_error_iff.mpr ⟨_, ?_, rfl⟩)
        exact Registry.run_buildChain_error_iff.mpr
          (.at front call back split built (Registry.run_build_error_iff.mpr refused))

theorem constructed_of_visits (plain : r.Plain) (visited : InTurn (visit r) w chains w') :
    w'.constructed = (r.constructions (chains.flatMap Registry.callsOf)).reverse ++ w.constructed := by
  have each (c : ChainConfig) (v v' : World) (ran : World.run (visit r c).run v = (.finished (.ok ()), v')) :
      v'.constructed = (r.constructions (Registry.callsOf c)).reverse ++ v.constructed := by
    obtain ⟨built, middle, made, rfl⟩ := run_visit_ok_iff.mp ran
    have counted := Registry.constructed_of_turns plain (Registry.run_buildChain_ok_iff.mp ⟨built, made⟩)
    exact (World.constructed_afterPrint _ _).trans counted
  rw [visited.recorded each, Registry.constructions, List.flatMap_assoc]
  rfl

theorem printed_of_visits (silent : r.Silent) (visited : InTurn (visit r) w chains w') :
    w'.printed = (chains.map okText).reverse ++ w.printed := by
  have each (c : ChainConfig) (v v' : World) (ran : World.run (visit r c).run v = (.finished (.ok ()), v')) :
      v'.printed = [okText c].reverse ++ v.printed := by
    obtain ⟨built, middle, made, rfl⟩ := run_visit_ok_iff.mp ran
    rw [World.printed_write, silent.printed_of_turns (Registry.run_buildChain_ok_iff.mp ⟨built, made⟩)]
  rw [visited.recorded each, List.map_eq_flatMap]

/-- The factories that have been called are those of the backends up to the first failure. -/
theorem Checked.constructed (plain : r.Plain) {calls : List (Role × BackendConfig)} {lines : List String}
    (checked : Checked r w chains calls lines result w') :
    w'.constructed = (r.constructions calls).reverse ++ w.constructed := by
  cases checked with
  | passed visited => exact constructed_of_visits plain visited
  | failed before c after front call back visited split built refused =>
      rw [Registry.constructed_of_built plain refused, Registry.constructed_of_turns plain built,
        constructed_of_visits plain visited]
      simp [Registry.constructions]

theorem Checked.printed (silent : r.Silent) {calls : List (Role × BackendConfig)} {lines : List String}
    (checked : Checked r w chains calls lines result w') : w'.printed = lines.reverse ++ w.printed := by
  cases checked with
  | passed visited => exact printed_of_visits silent visited
  | failed before c after front call back visited split built refused =>
      rw [silent.printed_of_built refused, silent.printed_of_turns built, printed_of_visits silent visited]

/-- The chains that are to be checked: those that are enabled, or the named one. -/
inductive Selects (settings : RelayerConfig) : Option String → List ChainConfig → Prop where
  | enabled : Selects settings none (settings.chains.filter (·.enabled))
  | named {name : String} {c : ChainConfig} (found : settings.chain? name = some c) : Selects settings (some name) [c]

theorem Selects.selectedChains_eq {given : Option String} (selects : Selects settings given chains) :
    selectedChains settings given = .ok chains := by
  cases selects with
  | enabled => rfl
  | named found => simp [selectedChains, found]

theorem run_checkChains_unknown {name : String} (loaded : w.files.Settles (settingsPath (ctx.homeIn w)) settings)
    (given : ctx.matched.text? "chain" = some name) (unknown : settings.chain? name = none) :
    World.run (checkChains ctx).run w =
      (.finished (.error (.plain ("chain `" ++ name ++ "` is not configured"))), w) := by
  rw [checkChains, Attempt.run_bind_ok (run_loadSettings_of_settles loaded), given]
  simp only [selectedChains, unknown]
  rfl

/-- As long as nothing stops it, `chains check` visits the selected chains in turn, and builds for each the signer,
the chain and the prover in turn. The first backend that cannot be built decides, and nothing after it is built. -/
theorem checkChains_in_turn (loaded : w.files.Settles (settingsPath (ctx.homeIn w)) settings)
    (never : (World.run (checkChains ctx).run w).2.isCancelled = false) :
    (∀ name, ctx.matched.text? "chain" = some name → settings.chain? name = none →
      World.run (checkChains ctx).run w =
        (.finished (.error (.plain ("chain `" ++ name ++ "` is not configured"))), w)) ∧
    (∀ chains, Selects settings (ctx.matched.text? "chain") chains → ∀ result w',
      World.run (checkChains ctx).run w = (.finished result, w') ↔
        ∃ calls lines, Checked ctx.registry w chains calls lines result w') ∧
    (∀ chains calls lines result w', Checked ctx.registry w chains calls lines result w' →
      (ctx.registry.Plain → w'.constructed = (ctx.registry.constructions calls).reverse ++ w.constructed) ∧
        (ctx.registry.Silent → w'.printed = lines.reverse ++ w.printed)) ∧
    (∀ c v v', World.run (visit ctx.registry c).run v = (.finished (.ok ()), v') ↔
      ∃ built middle, World.run (ctx.registry.buildChain c) v = (.finished (.ok built), middle) ∧
        v' = middle.write [okText c]) ∧
    (∀ c v v', (∃ built, World.run (ctx.registry.buildChain c) v = (.finished (.ok built), v')) ↔
      InTurn ctx.registry.build v (Registry.callsOf c) v') ∧
    ∀ c v err v', World.run (ctx.registry.buildChain c) v = (.finished (.error err), v') ↔
      BreaksOff ctx.registry.build v (Registry.callsOf c) err v' := by
  refine ⟨?_, ?_, ?_, ?_, ?_, ?_⟩
  · intro name given unknown
    exact run_checkChains_unknown loaded given unknown
  · intro chains selects result w'
    rw [run_checkChains loaded selects.selectedChains_eq] at never ⊢
    rw [run_checkEach never]
    exact run_visits_iff
  · intro chains calls lines result w' checked
    exact ⟨fun plain => checked.constructed plain, fun silent => checked.printed silent⟩
  · intro c v v'
    exact run_visit_ok_iff
  · intro c v v'
    exact Registry.run_buildChain_ok_iff
  · intro c v err v'
    exact Registry.run_buildChain_error_iff

/-! ## A signer that cannot be built -/

/-- A module that refuses all configurations but null. -/
def nullModule : Provider where
  id := "m"
  roles := [.chain, .signer, .prover]
  description := ""
  schema := fun _ => .ok []
  factory := fun role => .ok fun v => pure (match v with
    | .null => .ok { role }
    | _ => .error (.plain "not null"))

/-- A chain of that module. -/
def nullChain (name : String) (enabled : Bool) (signer : Option BackendConfig) : ChainConfig :=
  ⟨name, enabled, ⟨"m", .null⟩, signer, ⟨"m", .null⟩⟩

/-- Of four chains the second is disabled, and the third has a signer that cannot be built. -/
def nullChains : RelayerConfig :=
  ⟨[nullChain "a" true none, nullChain "b" false none, nullChain "c" true (some ⟨"m", .object []⟩),
    nullChain "d" true none]⟩

/-- A command line that names no chain. -/
def nullContext : Context where
  matched := [⟨homeOption, .path, .commandLine, .values [FilePath.ofString "h"]⟩]
  registry := ⟨[nullModule], Registry.enter "m" 0 nullModule.roles []⟩

/-- The world with those settings. -/
def nullWorld : World :=
  .holding
    { root := [(FilePath.ofString "h", .folder [(FilePath.ofString "config",
        .folder [(FilePath.ofString "config.json", .file nullChains.encode)])])]
      here := [] }

theorem each_nullChains {P : Json.Value → Prop} (null : P .null) (object : P (.object [])) :
    ∀ c ∈ nullChains.chains, c.Each (P ·.config) := by
  rintro c (_ | ⟨_, _ | ⟨_, _ | ⟨_, _ | ⟨_, ⟨⟩⟩⟩⟩⟩)
  · exact ⟨null, nofun, null⟩
  · exact ⟨null, nofun, null⟩
  · refine ⟨null, ?_, null⟩
    rintro s ⟨⟩
    exact object
  · exact ⟨null, nofun, null⟩

theorem storable_nullChains : nullChains.Storable where
  distinct := by decide
  whole := each_nullChains .null (.object (List.forall_mem_nil _))
  sorted := each_nullChains .null (.object .nil (List.forall_mem_nil _))
  shallow := by decide

theorem plain_nullContext : nullContext.registry.Plain := by
  intro p member role create made v
  cases List.mem_singleton.mp member
  cases made
  cases v <;> trivial

theorem silent_nullContext : nullContext.registry.Silent := by
  intro p member role create made v
  cases List.mem_singleton.mp member
  cases made
  cases v <;> trivial

/-- The first chain is built, the second is left out, and the fourth is not reached. -/
theorem checkChains_in_turn_null :
    ∃ e w', World.run (checkChains nullContext).run nullWorld = (.finished (.error e), w') ∧
      w'.printed = [okText (nullChain "a" true none)] ∧
      w'.constructed = [⟨0, .signer, .object []⟩, ⟨0, .prover, .null⟩, ⟨0, .chain, .null⟩] := by
  have loaded : nullWorld.files.Settles (settingsPath (nullContext.homeIn nullWorld)) nullChains :=
    ⟨nullChains.encode, rfl, storable_nullChains.ofContent _⟩
  have calm : nullWorld.Calm := ⟨rfl, rfl, rfl, rfl⟩
  obtain ⟨-, visits, counts, -⟩ := checkChains_in_turn loaded calm.run.going
  have checked : ∃ err w', Checked nullContext.registry nullWorld
      ([nullChain "a" true none] ++ nullChain "c" true (some ⟨"m", .object []⟩) :: [nullChain "d" true none])
      _ _ (.error (Error.report err)) w' :=
    ⟨_, _, .failed [nullChain "a" true none] _ [nullChain "d" true none] [] (.signer, ⟨"m", .object []⟩) _
      (.cons rfl (.nil _)) rfl (.nil _) rfl⟩
  obtain ⟨err, w', checked⟩ := checked
  obtain ⟨constructed, printed⟩ := counts _ _ _ _ _ checked
  exact ⟨_, w', (visits _ .enabled _ _).mpr ⟨_, _, checked⟩, printed silent_nullContext, constructed plain_nullContext⟩

end Commands

end ChainRelay
