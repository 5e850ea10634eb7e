import ChainRelay.Proofs.Config.Reloading
import ChainRelay.Proofs.Extension
import ChainRelay.Proofs.Launching

/-! # Sessions

A session is a sequence of runs of the shipped program in one home directory, each with its own
arguments and in surroundings that may have changed in every way but one: the settings file is as the
run before left it. In the course of a session the settings file comes about once, stays valid, and only
gains chains.
-/

namespace ChainRelay

/-- A run of the shipped program. -/
structure Visit where
  world : World
  env : Environment
  argv : List RawText

namespace Visit

/-- How the run ends, and the world it leaves. -/
def ran (v : Visit) : Ending (Except Error Unit) × World :=
  World.run (launch shippedModules v.env v.argv) v.world

/-- The settings file in a home directory before the run. -/
def before (v : Visit) (place : List RawText) : Option (List UInt8) :=
  v.world.files.settings? place

/-- The settings file in a home directory after the run. -/
def after (v : Visit) (place : List RawText) : Option (List UInt8) :=
  v.ran.2.files.settings? place

/-- The arguments select the command of a path. -/
def Runs (v : Visit) (path : CommandPath) : Prop :=
  ∃ app i, Launch.Selects shippedModules v.env v.argv app i ∧ i.path = path

/-- A command that the arguments select works in the home directory. -/
def Inside (v : Visit) (place : List RawText) : Prop :=
  ∀ app i, Launch.Selects shippedModules v.env v.argv app i →
    v.world.files.Resolves (Context.homeIn { matched := i.matched, registry := app.registry } v.world) place

/-- What the run respects about the settings file in a home directory. -/
structure Respects (v : Visit) (place : List RawText) : Prop where
  /-- Only two commands change the file, and only when they succeed. -/
  changes : v.after place = v.before place ∨ v.ran.1 = .finished (.ok ()) ∧
    ((v.Runs ["config", "init"] ∧ v.before place = none ∧ (v.after place).isSome) ∨
      (v.Runs ["chains", "add-dir"] ∧ (v.before place).isSome ∧ (v.after place).isSome))
  /-- The command that creates the file does so whenever it succeeds. -/
  created : v.Runs ["config", "init"] → v.ran.1 = .finished (.ok ()) →
    v.before place = none ∧ (v.after place).isSome
  /-- The chains that were there are still the first. -/
  chains : ∀ file s, (v.before place).map (RelayerConfig.ofContent file) = some (.ok s) →
    ∃ s', (v.after place).map (RelayerConfig.ofContent file) = some (.ok s') ∧ s.chains <+: s'.chains
  /-- The file is created once. -/
  once : (v.before place).isSome → v.Runs ["config", "init"] →
    (∃ e, v.ran.1 = .finished (.error e)) ∧ v.after place = v.before place

end Visit

/-- The runs in a home directory that has no settings file at first, and the file in the end. -/
inductive Session (place : List RawText) : List Visit → Option (List UInt8) → Prop where
  | start : Session place [] none
  | visit {visits : List Visit} {content : Option (List UInt8)} {v : Visit}
      (session : Session place visits content) (found : v.before place = content) (inside : v.Inside place) :
      Session place (visits ++ [v]) (v.after place)

/-- The content of a valid settings file: it can be loaded, names each chain once, and the shipped
modules accept all backends. -/
structure ValidSettings (content : List UInt8) (s : RelayerConfig) : Prop where
  loads : ∀ file w, w.files.read file = .ok content → World.run (loadSettings file) w = (.finished (.ok s), w)
  distinct : (s.chains.map (·.name)).Nodup
  accepted : ∃ r, Registry.ofProviders (shippedModules.map (·.provider)) = .ok r ∧
    ∀ c ∈ s.chains, ∀ entry ∈ Commands.backendsOf c, r.validate entry.1 entry.2 = .ok ()

/-! ## The commands of the shipped program -/

theorem Launch.Selects.unique {modules : List Module} {env : Environment} {argv : List RawText}
    {app app' : App} {i i' : Invocation Handler} (first : Selects modules env argv app i)
    (second : Selects modules env argv app' i') : app = app' ∧ i = i' := by
  obtain ⟨built, routed⟩ := first
  obtain ⟨built', routed'⟩ := second
  rw [built, Except.ok.injEq] at built'
  subst built'
  rw [routed, Except.ok.injEq, Routed.invocation.injEq] at routed'
  exact ⟨rfl, routed'⟩

/-- The commands of the shipped program: two that save settings, and others that change no files. -/
theorem shipped_cases {env : Environment} {path : CommandPath} {handler : Handler}
    (offered : ∃ x ∈ App.offers env shippedModules, x.path = path ∧ x.2.handler = some handler) :
    (path = ["config", "init"] ∧ handler = Commands.initSettings) ∨
      (path = ["chains", "add-dir"] ∧ handler = Commands.addFolder) ∨
      (path ≠ ["config", "init"] ∧ path ≠ ["chains", "add-dir"] ∧ handler.Harmless) := by
  obtain ⟨x, member, rfl, runs⟩ := offered
  simp only [App.offers, Commands.builtIn, Commands.settingsFragments, Commands.chainFragments,
    Commands.moduleFragments, shippedModules, ethereumModule, hdModule, mockModule, Ethereum.fragments,
    Hd.fragments, List.flatMap_cons, List.flatMap_nil, List.map_cons, List.map_nil, List.cons_append,
    List.nil_append, List.append_nil, List.mem_cons, List.not_mem_nil, or_false] at member
  rcases member with rfl | rfl | rfl | rfl | rfl | rfl | rfl | rfl | rfl | rfl | rfl | rfl | rfl | rfl <;>
    cases runs
  · exact .inl ⟨rfl, rfl⟩
  · exact .inr (.inr ⟨by simp [Offer.path], by simp [Offer.path], Commands.harmless_showSettings⟩)
  · exact .inr (.inr ⟨by simp [Offer.path], by simp [Offer.path], Commands.harmless_listChains⟩)
  · exact .inr (.inl ⟨rfl, rfl⟩)
  · exact .inr (.inr ⟨by simp [Offer.path], by simp [Offer.path], Commands.harmless_checkChains⟩)
  · exact .inr (.inr ⟨by simp [Offer.path], by simp [Offer.path], Commands.harmless_listModules⟩)
  · exact .inr (.inr ⟨by simp [Offer.path], by simp [Offer.path], Commands.harmless_showSchema⟩)
  · exact .inr (.inr ⟨by simp [Offer.path], by simp [Offer.path], Ethereum.harmless_printHeight⟩)
  · exact .inr (.inr ⟨by simp [Offer.path], by simp [Offer.path, Hd.moduleId], Hd.harmless_printAddress⟩)

/-! ## One run -/

theorem shipped_registered : ∃ r, Registry.ofProviders (shippedModules.map (·.provider)) = .ok r :=
  ⟨_, rfl⟩

section Visit

variable {r : Registry} (registered : Registry.ofProviders (shippedModules.map (·.provider)) = .ok r)
include registered

theorem shipped_flat : r.Flat :=
  Registry.flat_of_shipped (Registry.registerAll_eq_ok registered).2

theorem shipped_harmless : r.Harmless :=
  Registry.harmless_of_shipped (Registry.registerAll_eq_ok registered).2

theorem registry_of_selects {env : Environment} {argv : List RawText} {app : App}
    {i : Invocation Handler} (selected : Launch.Selects shippedModules env argv app i) :
    app.registry = r := by
  have same := (App.build_eq_ok_iff.mp selected.1).1
  rw [Registry.ofProviders] at registered
  rw [registered, Except.ok.injEq] at same
  exact same.symm

end Visit

theorem Visit.Runs.unique {v : Visit} {path path' : CommandPath} (first : v.Runs path)
    (second : v.Runs path') : path = path' := by
  obtain ⟨app, i, selected, rfl⟩ := first
  obtain ⟨app', i', selected', rfl⟩ := second
  rw [(selected.unique selected').2]

/-- What a run can do to a settings file that holds sound settings, if it is there. -/
inductive Visit.Effect (v : Visit) (place : List RawText) (r : Registry) : Prop where
  | kept (same : v.after place = v.before place)
      (failed : v.Runs ["config", "init"] → ∃ e, v.ran.1 = .finished (.error e)) : Effect v place r
  | created (ended : v.ran.1 = .finished (.ok ())) (runs : v.Runs ["config", "init"])
      (absent : v.before place = none) (found : v.after place = some RelayerConfig.empty.encode) :
      Effect v place r
  | extended {s s' : RelayerConfig} (ended : v.ran.1 = .finished (.ok ()))
      (runs : v.Runs ["chains", "add-dir"]) (there : v.before place = some s.encode)
      (sound : s.Sound r) (extends' : s.Extends r s')
      (found : v.after place = some s'.encode) : Effect v place r

/-- A selected command is run in a world `w'` with the same files. -/
theorem Visit.effect_of_selects {v : Visit} {place : List RawText} {app : App} {i : Invocation Handler}
    (registered : Registry.ofProviders (shippedModules.map (·.provider)) = .ok app.registry)
    (selected : Launch.Selects shippedModules v.env v.argv app i) {w' : World} (disk : v.world.SameDisk w')
    (resolves : w'.files.Resolves (Context.homeIn { matched := i.matched, registry := app.registry } w') place)
    {result : Ending (Except Report Unit) × World}
    (run : World.run (i.handler { matched := i.matched, registry := app.registry }).run w' = result)
    (ran : v.ran = (result.1.map App.outcome, result.2))
    (good : RelayerConfig.SoundContent app.registry (v.before place)) : v.Effect place app.registry := by
  have runs : v.Runs i.path := ⟨app, i, selected, rfl⟩
  have before : v.before place = w'.files.settings? place := by rw [Visit.before, disk.files]
  have after : v.after place = result.2.files.settings? place := by rw [Visit.after, ran]
  have ended : v.ran.1 = result.1.map App.outcome := by rw [ran]
  rcases shipped_cases selected.offered with ⟨path, handler⟩ | ⟨path, handler⟩ | ⟨path, -, harmless⟩
  · rw [handler] at run
    rw [path] at runs
    rcases Commands.run_initSettings _ resolves run with ⟨⟨e, failed⟩, same⟩ | ⟨done, absent, created⟩
    · refine .kept (after.trans (same.trans before.symm)) fun _ => ⟨.handler e, ?_⟩
      rw [ended, failed]
      rfl
    · refine .created ?_ runs (before.trans absent) (after.trans created)
      rw [ended, done]
      rfl
  · rw [handler] at run
    rw [path] at runs
    rw [before] at good
    have advanced := Commands.advanced_addFolder _ (shipped_flat registered) resolves good
    rw [run] at advanced
    rcases advanced with same | ⟨done, s, s', there, sound, extended, saved⟩
    · refine .kept (after.trans (same.trans before.symm)) fun other => ?_
      exact absurd (runs.unique other) (by decide)
    · refine .extended ?_ runs (before.trans there) sound extended (after.trans saved)
      rw [ended, done]
      rfl
  · have unchanged := (World.run_harmless (harmless { matched := i.matched, registry := app.registry }
      (shipped_harmless registered)) w').disk
    rw [run] at unchanged
    refine .kept ?_ fun other => absurd (runs.unique other) path
    rw [after, unchanged.files, before]

theorem Visit.effect {v : Visit} {place : List RawText} {r : Registry}
    (registered : Registry.ofProviders (shippedModules.map (·.provider)) = .ok r)
    (inside : v.Inside place)
    (good : RelayerConfig.SoundContent r (v.before place)) : v.Effect place r := by
  by_cases selects : ∃ app i, Launch.Selects shippedModules v.env v.argv app i
  · obtain ⟨app, i, selected⟩ := selects
    obtain rfl := registry_of_selects registered selected
    obtain ⟨w', disk, ⟨-, report, failed⟩ | ran⟩ := Launch.run_launch selected v.world
    · refine .kept ?_ fun _ => ⟨.observability report, congrArg Prod.fst failed⟩
      rw [Visit.after, Visit.ran, failed, Visit.before, ← disk.files]
    · have resolves := inside app i selected
      rw [← disk.files, ← disk.homeIn] at resolves
      exact Visit.effect_of_selects registered selected disk resolves rfl ran good
  · have none : ∀ app i, ¬Launch.Selects shippedModules v.env v.argv app i :=
      fun app i selected => selects ⟨app, i, selected⟩
    have disk := (World.run_harmless (Launch.harmless_launch none) v.world).disk
    refine .kept ?_ ?_
    · rw [Visit.after, Visit.ran, disk.files]
      rfl
    · rintro ⟨app, i, selected, -⟩
      exact absurd selected (none app i)

section Effect

variable {v : Visit} {place : List RawText} {r : Registry} (effect : v.Effect place r)
include effect

theorem Visit.Effect.soundContent (good : RelayerConfig.SoundContent r (v.before place)) :
    RelayerConfig.SoundContent r (v.after place) := by
  cases effect with
  | kept same failed =>
      rw [same]
      exact good
  | created ended runs absent found =>
      rw [found]
      exact (RelayerConfig.sound_empty r).content
  | extended ended runs there sound extended found =>
      rw [found]
      exact extended.sound.content

/-- What a run does to the settings file of its home directory respects what was there. -/
theorem Visit.Effect.respects (flat : r.Flat) : v.Respects place where
  changes := by
    cases effect with
    | kept same failed => exact .inl same
    | created ended runs absent found =>
        refine .inr ⟨ended, .inl ⟨runs, absent, ?_⟩⟩
        rw [found]
        rfl
    | extended ended runs there sound extended found =>
        refine .inr ⟨ended, .inr ⟨runs, ?_, ?_⟩⟩
        · rw [there]
          rfl
        · rw [found]
          rfl
  created := by
    intro runs succeeded
    cases effect with
    | kept same failed =>
        obtain ⟨e, failed⟩ := failed runs
        rw [failed] at succeeded
        cases succeeded
    | created ended others absent found =>
        refine ⟨absent, ?_⟩
        rw [found]
        rfl
    | extended ended others there sound extended found =>
        exact absurd (others.unique runs) (by decide)
  chains := by
    intro file s loaded
    cases effect with
    | kept same failed => exact ⟨s, same ▸ loaded, List.prefix_refl _⟩
    | created ended runs absent found =>
        rw [absent] at loaded
        cases loaded
    | @extended old new ended runs there sound extended found =>
        rw [there, Option.map_some, sound.ofContent flat, Option.some.injEq, Except.ok.injEq] at loaded
        subst loaded
        refine ⟨new, ?_, extended.before⟩
        rw [found, Option.map_some, extended.sound.ofContent flat]
  once := by
    intro there runs
    cases effect with
    | kept same failed => exact ⟨failed runs, same⟩
    | created ended others absent found =>
        rw [absent] at there
        cases there
    | extended ended others before sound extended found =>
        exact absurd (others.unique runs) (by decide)

end Effect

/-! ## Runs that can be told in full -/

/-- A run by the user of given files, whose environment has no variables. -/
def Visit.plain (files : FileTree) (command : List String) : Visit where
  world := { World.holding files with userHome := FilePath.ofString "/home" }
  env := fun _ => none
  argv := ("relayer" :: command).map RawText.ofString

/-- The home directory of that user. -/
def plainHome : FilePath :=
  defaultHome (FilePath.ofString "/home")

theorem resolves_plainHome (files : FileTree) :
    files.Resolves plainHome (["home", ".relayer"].map RawText.ofString) := by
  have absolute : plainHome.isAbsolute = true := by decide
  have named : plainHome.names = ["home", ".relayer"].map RawText.ofString := by decide +kernel
  have proper : ∀ name ∈ plainHome.names, FilePath.Proper name := by
    simp only [named, FilePath.Proper]
    decide
  exact named ▸ FileTree.resolves_of_proper files absolute proper

/-- The commands of the shipped program where the environment has no variables. -/
def shippedTree : Tree Handler :=
  { (App.treeOf (fun _ => none) shippedModules).sealed with
    about := some Launch.about
    version := some Launch.version }

theorem build_shipped : ∃ r, App.build "relayer" (some Launch.about) (some Launch.version) (fun _ => none)
    shippedModules = .ok ⟨r, shippedTree⟩ :=
  ⟨_, App.build_eq_ok_iff.mpr ⟨rfl, _, rfl, rfl⟩⟩

/-- The arguments select the command of a path, which runs in a world with the same files and in the home
directory of the user. -/
structure Visit.Calls (v : Visit) (p : CommandPath) (app : App) (i : Invocation Handler) (w : World) : Prop where
  selected : Launch.Selects shippedModules v.env v.argv app i
  path : i.path = p
  disk : v.world.SameDisk w
  home : Context.homeIn { matched := i.matched, registry := app.registry } w = plainHome
  ran : v.ran =
    let ended := World.run (i.handler { matched := i.matched, registry := app.registry }).run w
    (ended.1.map App.outcome, ended.2)

theorem Visit.calls {files : FileTree} {command : List String} (p : CommandPath)
    (reached : (App.innermost? shippedTree (("relayer" :: command).map RawText.ofString)).map (·.1) = some p)
    (runs : ((App.offers (fun _ => none) shippedModules).any fun x => x.path == p && x.2.handler.isSome) = true)
    (unset : ((App.innermost? shippedTree (("relayer" :: command).map RawText.ofString)).map (·.2)).bind
      (·.path? homeOption) = none) :
    ∃ app i w, (Visit.plain files command).Calls p app i w ∧
      (App.innermost? shippedTree (("relayer" :: command).map RawText.ofString)).map (·.2) = some i.matched := by
  obtain ⟨r, done⟩ := build_shipped
  obtain ⟨i, routed, path, matched⟩ := App.route_of_innermost (App.build_grown done) p reached runs
  rw [matched, Option.bind_some] at unset
  have selected : Launch.Selects shippedModules _ (Visit.plain files command).argv _ i := ⟨done, routed⟩
  obtain ⟨w, disk, ⟨opened, -⟩ | ran⟩ := Launch.run_launch selected (Visit.plain files command).world
  · exact absurd rfl opened
  · have home : Context.homeIn { matched := i.matched, registry := r } w = plainHome := by
      rw [Context.homeIn, unset, disk.userHome]
      rfl
    exact ⟨_, i, w, ⟨selected, path, disk, home, ran⟩, matched⟩

theorem Visit.Calls.inside {v : Visit} {p : CommandPath} {app : App} {i : Invocation Handler} {w : World}
    (calls : v.Calls p app i w) : v.Inside (["home", ".relayer"].map RawText.ofString) := by
  intro app' i' selected
  obtain ⟨rfl, rfl⟩ := selected.unique calls.selected
  have home := calls.home
  rw [calls.disk.homeIn] at home
  rw [home]
  exact resolves_plainHome _

theorem calls_initSettings (files : FileTree) :
    ∃ app i w, (Visit.plain files ["config", "init"]).Calls ["config", "init"] app i w ∧
      i.handler = Commands.initSettings := by
  have reached : (App.innermost? shippedTree (["relayer", "config", "init"].map RawText.ofString)).map (·.1) =
      some ["config", "init"] := by
    cbv
  obtain ⟨app, i, w, calls, -⟩ := Visit.calls ["config", "init"] reached rfl (by cbv)
  refine ⟨app, i, w, calls, ?_⟩
  rcases shipped_cases calls.selected.offered with ⟨-, handler⟩ | ⟨other, -⟩ | ⟨other, -⟩
  · exact handler
  · exact absurd (calls.path.symm.trans other) (by decide)
  · exact absurd calls.path other

theorem calls_addFolder (files : FileTree) :
    ∃ app i w, (Visit.plain files ["chains", "add-dir", "/chains"]).Calls ["chains", "add-dir"] app i w ∧
      i.handler = Commands.addFolder ∧ i.matched.path? "dir" = some (FilePath.ofString "/chains") := by
  have reached : (App.innermost? shippedTree
      (["relayer", "chains", "add-dir", "/chains"].map RawText.ofString)).map (·.1) = some ["chains", "add-dir"] := by
    cbv
  have asked : ((App.innermost? shippedTree
      (["relayer", "chains", "add-dir", "/chains"].map RawText.ofString)).map (·.2)).bind (·.path? "dir") =
        some (FilePath.ofString "/chains") := by
    cbv
  obtain ⟨app, i, w, calls, matched⟩ := Visit.calls ["chains", "add-dir"] reached rfl (by cbv)
  rw [matched, Option.bind_some] at asked
  refine ⟨app, i, w, calls, ?_, asked⟩
  rcases shipped_cases calls.selected.offered with ⟨other, -⟩ | ⟨-, handler⟩ | ⟨-, other, -⟩
  · exact absurd (calls.path.symm.trans other) (by decide)
  · exact handler
  · exact absurd calls.path other

/-- A chain whose backends the shipped modules accept. -/
def sepolia : ChainConfig where
  name := "sepolia"
  enabled := true
  chain :=
    { module := Ethereum.moduleId
      config := .object
        [ ("chain_id", .string "sepolia"), ("eth_chain_id", .ofUInt64 11155111),
          ("ibc_address", .string "0x3ed6b3c2c8f4a5e1bb7bc6dbc6a0f37ee7fa4b34"),
          ("rpc_addr", .string "http://localhost:8545") ] }
  signer := none
  prover := { module := Mock.moduleId, config := .null }

/-- A folder with the definition of that chain. -/
def sepoliaFolder : FolderEntries :=
  [ (FilePath.ofString "chains",
      .folder [(FilePath.ofString "sepolia.json", .file (utf8Bytes sepolia.toValue.pretty))]) ]

/-- The folder beside a home directory with empty settings. -/
def sepoliaFiles : FileTree where
  root := sepoliaFolder ++
    [ (FilePath.ofString "home", .folder [(FilePath.ofString ".relayer", .folder
        [(FilePath.ofString "config", .folder
          [(FilePath.ofString "config.json", .file RelayerConfig.empty.encode)])])]) ]
  here := []

theorem run_initSettings_beside {ctx : Context} {w : World} (files : w.files = ⟨sepoliaFolder, []⟩)
    (home : ctx.homeIn w = plainHome) :
    ∃ w', World.run (Commands.initSettings ctx).run w = (.finished (.ok ()), w') ∧ w'.files = sepoliaFiles := by
  have located := Attempt.run_lift_finished (run_settingsPath ctx w)
  rw [home] at located
  have absent : World.run (liftM (Program.question (.fileExists (settingsPath plainHome))) : Attempt Bool).run w =
      (.finished (.ok false), w) := by
    have asked : World.run (Program.question (.fileExists (settingsPath plainHome))) w = (.finished false, w) := by
      rw [World.run_question, World.answer, files]
      rfl
    exact Attempt.run_lift_finished asked
  have saved : World.run (saveSettings (settingsPath plainHome) .empty) w =
      (.finished (.ok ()), { w with files := sepoliaFiles }) := by
    obtain ⟨found, _⟩ := w
    obtain rfl : found = ⟨sepoliaFolder, []⟩ := files
    rfl
  unfold Commands.initSettings
  rw [Attempt.run_bind_ok located]
  refine ⟨_, (Attempt.run_bind_ok absent).trans (Attempt.run_bind_ok (Attempt.run_ofProgram_ok saved)), ?_⟩
  exact (World.sameDisk_answer (q := .print _) trivial _).files

/-- The settings are created beside the folder. -/
theorem files_initSettings {v : Visit} (same : v = Visit.plain ⟨sepoliaFolder, []⟩ ["config", "init"]) :
    v.ran.2.files = sepoliaFiles := by
  obtain ⟨app, i, w, calls, handler⟩ := calls_initSettings ⟨sepoliaFolder, []⟩
  obtain ⟨w', done, files⟩ := run_initSettings_beside calls.disk.files calls.home
  rw [same, calls.ran, handler, done]
  exact files

theorem fits_sepolia : sepolia.Each (·.config.Fits 125) := by
  refine ⟨.object (by decide) ?_, nofun, .null⟩
  simp only [List.forall_mem_cons]
  exact ⟨.string, .int, .string, .string, List.forall_mem_nil _⟩

theorem acceptable_sepolia {r : Registry}
    (registered : Registry.ofProviders (shippedModules.map (·.provider)) = .ok r) :
    Commands.Acceptable r sepoliaFiles RelayerConfig.empty.chains
      ([FilePath.ofString "sepolia.json"].map (FilePath.ofString "/chains").join) [sepolia] where
  read := .cons ⟨_, rfl, ChainConfig.ofContent_pretty fits_sepolia _⟩ .nil
  accepted := by
    obtain ⟨r', shipped⟩ : ∃ r', Registry.ofProviders (shippedModules.map (·.provider)) = .ok r' ∧
        ∀ entry ∈ Commands.backendsOf sepolia, r'.validate entry.1 entry.2 = .ok () := by
      refine ⟨_, rfl, ?_⟩
      rintro entry (_ | ⟨_, _ | ⟨_, ⟨⟩⟩⟩)
      · rfl
      · rfl
    rw [registered, Except.ok.injEq] at shipped
    exact List.forall_mem_singleton.mpr (shipped.1 ▸ shipped.2)
  distinct := List.nodup_singleton _
  new := List.forall_mem_singleton.mpr (List.forall_mem_nil _)

theorem addition_sepolia {ctx : Context} {w : World}
    (registered : Registry.ofProviders (shippedModules.map (·.provider)) = .ok ctx.registry)
    (files : w.files = sepoliaFiles) (home : ctx.homeIn w = plainHome)
    (asked : ctx.matched.path? "dir" = some (FilePath.ofString "/chains")) :
    Commands.Addition ctx w (FilePath.ofString "/chains") .empty [FilePath.ofString "sepolia.json"] [sepolia] where
  asked := asked
  loads := by
    rw [files, home]
    exact ⟨_, rfl, storable_empty.ofContent _⟩
  listed := by
    have named : Commands.IsDefinition (FilePath.ofString "sepolia.json") :=
      ⟨FilePath.ofString "sepolia", by decide, rfl⟩
    have chosen : [FilePath.ofString "sepolia.json"].filter Commands.IsDefinition =
        [FilePath.ofString "sepolia.json"] := List.filter_cons_of_pos (decide_eq_true named)
    rw [files]
    exact ⟨[FilePath.ofString "sepolia.json"], rfl, .of_eq chosen.symm, List.pairwise_singleton _ _⟩
  some' := List.cons_ne_nil _ _
  acceptable := by
    rw [files]
    exact acceptable_sepolia registered

/-- The chain is added to the empty settings. -/
theorem after_addFolder {files : FileTree} (same : files = sepoliaFiles) :
    (Visit.plain files ["chains", "add-dir", "/chains"]).after (["home", ".relayer"].map RawText.ofString) =
      some (RelayerConfig.encode ⟨[sepolia]⟩) := by
  subst same
  obtain ⟨app, i, w, calls, handler, asked⟩ := calls_addFolder sepoliaFiles
  obtain ⟨r, registered⟩ := shipped_registered
  obtain rfl := registry_of_selects registered calls.selected
  have addition := addition_sepolia registered calls.disk.files calls.home asked
  obtain ⟨result, w', ran, adds⟩ := Commands.run_addFolder { matched := i.matched, registry := app.registry } w
  cases adds with
  | refused none => exact absurd addition (none _ _ _ _)
  | added addition' saved =>
      have listed : ∀ listing, w.files.list (FilePath.ofString "/chains") = .ok listing →
          (listing.map RawText.toBytes).Nodup := by
        rw [calls.disk.files]
        rintro _ ⟨⟩
        exact List.nodup_singleton _
      obtain ⟨rfl, rfl⟩ := addition.unique listed addition'
      rw [calls.home] at saved
      rw [Visit.after, calls.ran, handler, ran]
      exact FileTree.settings?_of_read (resolves_plainHome _) saved

/-! ## Whole sessions -/

/-- The invariant of a session: the file, if it is there, holds sound settings, and every run respected
it. -/
theorem Session.keeps {place : List RawText} {r : Registry}
    (registered : Registry.ofProviders (shippedModules.map (·.provider)) = .ok r) {visits : List Visit}
    {content : Option (List UInt8)} (session : Session place visits content) :
    RelayerConfig.SoundContent r content ∧ ∀ v ∈ visits, v.Respects place := by
  induction session with
  | start => exact ⟨RelayerConfig.soundContent_none r, List.forall_mem_nil _⟩
  | @visit visits content v session found inside ih =>
      obtain ⟨good, respected⟩ := ih
      rw [← found] at good
      have effect := Visit.effect registered inside good
      rw [List.forall_mem_append, List.forall_mem_singleton]
      exact ⟨effect.soundContent good, respected, effect.respects (shipped_flat registered)⟩

theorem RelayerConfig.Sound.valid {r : Registry} {s : RelayerConfig} (sound : s.Sound r)
    (registered : Registry.ofProviders (shippedModules.map (·.provider)) = .ok r) :
    ValidSettings s.encode s where
  loads := by
    intro file w read
    have asked : World.run (Program.question (.readFile file)) w = (.finished (.ok s.encode), w) := by
      rw [World.run_question, World.answer, read]
    rw [loadSettings, World.run_bind_finished asked]
    dsimp only
    rw [sound.ofContent (shipped_flat registered)]
    rfl
  distinct := sound.distinct
  accepted := ⟨r, registered, sound.accepted⟩

/-- In every session the settings file is valid whenever it is there, and every run respects it. -/
theorem Session.stays_valid {place : List RawText} {visits : List Visit} {content : Option (List UInt8)}
    (session : Session place visits content) :
    (∀ bytes, content = some bytes → ∃ s, ValidSettings bytes s) ∧ ∀ v ∈ visits, v.Respects place := by
  obtain ⟨r, registered⟩ := shipped_registered
  obtain ⟨good, respects⟩ := session.keeps registered
  refine ⟨fun bytes found => ?_, respects⟩
  obtain ⟨s, sound, rfl⟩ := good bytes found
  exact ⟨s, sound.valid registered⟩

/-- The settings are created, gain a chain, and are not created again. -/
theorem Session.stays_valid_sepolia :
    let place := ["home", ".relayer"].map RawText.ofString
    let first := Visit.plain ⟨sepoliaFolder, []⟩ ["config", "init"]
    let second := Visit.plain first.ran.2.files ["chains", "add-dir", "/chains"]
    let third := Visit.plain second.ran.2.files ["config", "init"]
    let content := some (RelayerConfig.encode ⟨[sepolia]⟩)
    Session place [first, second, third] content ∧
      (∀ bytes, content = some bytes → ∃ s, ValidSettings bytes s) ∧
        ∀ v ∈ [first, second, third], v.Respects place := by
  intro place first second third content
  have added : second.after place = content := after_addFolder (files_initSettings rfl)
  have found (files : FileTree) (command : List String) :
      (Visit.plain files command).before place = files.settings? place := rfl
  obtain ⟨_, _, _, calls, -⟩ := calls_initSettings ⟨sepoliaFolder, []⟩
  obtain ⟨_, _, _, calls', -⟩ := calls_addFolder first.ran.2.files
  obtain ⟨_, _, _, calls'', -⟩ := calls_initSettings second.ran.2.files
  have once : Session place [first] (first.after place) := .visit .start rfl calls.inside
  have twice : Session place [first, second] (second.after place) :=
    .visit once (found first.ran.2.files _) calls'.inside
  have session : Session place [first, second, third] (third.after place) :=
    .visit twice (found second.ran.2.files _) calls''.inside
  obtain ⟨valid, respects⟩ := Session.stays_valid session
  have kept : third.after place = content := by
    have before : third.before place = content := (found second.ran.2.files _).trans added
    have there : (third.before place).isSome := by
      rw [before]
      rfl
    exact ((respects third (by simp)).once there ⟨_, _, calls''.selected, calls''.path⟩).2.trans before
  rw [kept] at session valid
  exact ⟨session, valid, respects⟩

end ChainRelay
