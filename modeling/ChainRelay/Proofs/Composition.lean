import ChainRelay.App
import ChainRelay.Proofs.Command.Order
import ChainRelay.Proofs.Registration

/-! # Composition

An application can be composed of modules exactly if their backends and commands do not get in each
other's way. Which modules these are decides what the application selects; their order does not.
-/

namespace ChainRelay

/-- No role and id belong to both modules. -/
def Provider.Compatible (p q : Provider) : Prop :=
  ∀ role ∈ p.roles, role ∈ q.roles → p.id ≠ q.id

namespace Registry

/-- Modules are registered together exactly if no two of them have a role and an id in common, or one
of them with a module that was there before. -/
theorem registerAll_ok_iff {ps : List Provider} {r : Registry} (indexed : Indexed r) :
    (∃ r', r.registerAll ps = .ok r') ↔
      ps.Pairwise Provider.Compatible ∧ ∀ p ∈ r.providers, ∀ q ∈ ps, p.Compatible q := by
  induction ps generalizing r with
  | nil => simp [registerAll]
  | cons p rest ih =>
      have free : (∃ r', r.register p = .ok r') ↔ ∀ q ∈ r.providers, q.Compatible p := by
        rw [register_ok_iff]
        simp only [← Option.not_isSome_iff_eq_none, position?_isSome_iff indexed]
        constructor
        · exact fun none q member role first second same => none role second ⟨q, member, same, first⟩
        · rintro apart role declared ⟨q, member, same, first⟩
          exact apart q member role first declared same
      simp only [List.pairwise_cons, List.forall_mem_cons]
      cases result : r.register p with
      | error e =>
          have refused : ¬∀ q ∈ r.providers, q.Compatible p := by
            rw [← free, result]
            simp
          simp only [registerAll, result, reduceCtorEq, exists_false, false_iff]
          exact fun all => refused fun q member => (all.2 q member).1
      | ok r' =>
          have apart := free.mp ⟨r', result⟩
          simp only [registerAll, result, ih (indexed_register indexed result), providers_register result,
            List.forall_mem_append, List.forall_mem_singleton]
          constructor
          · rintro ⟨others, before, new⟩
            exact ⟨⟨new, others⟩, fun q member => ⟨apart q member, before q member⟩⟩
          · rintro ⟨⟨new, others⟩, before⟩
            exact ⟨others, fun q member => (before q member).2, new⟩

/-- Registering all modules is attempting each of them, when none is refused. -/
theorem registerAll_eq_ok {ps : List Provider} {r r' : Registry} (done : r.registerAll ps = .ok r') :
    r' = r.attempts ps ∧ r'.providers = r.providers ++ ps := by
  induction ps generalizing r with
  | nil =>
      cases done
      exact ⟨rfl, by simp⟩
  | cons p rest ih =>
      cases result : r.register p with
      | error e => simp [registerAll, result] at done
      | ok middle =>
          simp only [registerAll, result] at done
          obtain ⟨same, held⟩ := ih done
          refine ⟨by simpa only [attempts, result] using same, ?_⟩
          rw [held, providers_register result, List.append_assoc, List.singleton_append]

end Registry

namespace Tree

variable {H : Type u}

theorem insertEach_append (xs ys : List (Offer H)) (t : Tree H) :
    t.insertEach (xs ++ ys) = (t.insertEach xs >>= fun t => t.insertEach ys) := by
  induction xs generalizing t with
  | nil => rfl
  | cons x rest ih =>
      simp only [List.cons_append, insertEach]
      cases t.insert x.1 x.2 with
      | error e => rfl
      | ok t => exact ih t

end Tree

namespace App

/-- The fragments that an application is composed of, each with its owner. -/
def offers (env : Environment) (modules : List Module) : List (Offer Handler) :=
  Commands.builtIn.map (Commands.owner, ·) ++
    modules.flatMap fun m => (m.commands env).map (m.provider.id, ·)

theorem insertAll_eq (owner : String) (fs : List (Fragment Handler)) (t : Tree Handler) :
    insertAll owner t fs = t.insertEach (fs.map (owner, ·)) := by
  induction fs generalizing t with
  | nil => rfl
  | cons f rest ih =>
      simp only [insertAll, List.map_cons, Tree.insertEach]
      cases t.insert owner f with
      | error e => rfl
      | ok t => exact ih t

theorem insertModules_eq (env : Environment) (modules : List Module) (t : Tree Handler) :
    insertModules env t modules =
      t.insertEach (modules.flatMap fun m => (m.commands env).map (m.provider.id, ·)) := by
  induction modules generalizing t with
  | nil => rfl
  | cons m rest ih =>
      rw [insertModules, insertAll_eq, List.flatMap_cons, Tree.insertEach_append]
      cases t.insertEach ((m.commands env).map (m.provider.id, ·)) with
      | error e => rfl
      | ok t => exact ih t

section Build

variable {name : String} {about version : Option String} {env : Environment} {modules : List Module}

/-- Composition registers all modules and inserts all fragments. -/
theorem build_eq_ok_iff {app : App} :
    build name about version env modules = .ok app ↔
      Registry.empty.registerAll (modules.map (·.provider)) = .ok app.registry ∧
        ∃ tree,
          (Tree.empty name about version (globalOptions env)).insertEach (offers env modules) = .ok tree ∧
            app.tree = tree.sealed := by
  have split : build name about version env modules =
      (Registry.empty.registerAll (modules.map (·.provider)) >>= fun registry =>
        (Tree.empty name about version (globalOptions env)).insertEach (offers env modules) >>= fun tree =>
          pure { registry, tree := tree.sealed }) := by
    simp only [build, Registry.ofProviders, offers, Tree.insertEach_append, insertAll_eq, insertModules_eq,
      bind_assoc]
  rw [split]
  obtain ⟨registry, tree⟩ := app
  cases Registry.empty.registerAll (modules.map (·.provider)) with
  | error e => simp [bind, Except.bind]
  | ok r =>
      cases (Tree.empty name about version (globalOptions env)).insertEach (offers env modules) with
      | error e => simp [bind, Except.bind]
      | ok t => simp [bind, Except.bind, pure, Except.pure, eq_comm]

/-- The modules can be composed. -/
structure Composable (env : Environment) (modules : List Module) : Prop where
  /-- No role and id belong to two modules. -/
  backends : modules.Pairwise fun m m' => m.provider.Compatible m'.provider
  sound : ∀ m ∈ modules, ∀ f ∈ m.commands env, f.path.Sound
  /-- No path is claimed twice. -/
  distinct : (modules.flatMap fun m => (m.commands env).map (·.path)).Nodup
  /-- No path is that of a built-in command. -/
  new : ∀ m ∈ modules, ∀ f ∈ m.commands env, f.path ∉ Commands.builtIn.map (·.path)
  /-- No argument has a name of a global option. -/
  apart : ∀ m ∈ modules, ∀ f ∈ m.commands env, ∀ a ∈ f.args, ∀ g ∈ globalOptions env, a.Apart g

theorem paths_offers (env : Environment) (modules : List Module) :
    (offers env modules).map Offer.path =
      Commands.builtIn.map (·.path) ++ modules.flatMap fun m => (m.commands env).map (·.path) := by
  simp only [offers, List.map_append, List.map_map, List.map_flatMap]
  rfl

theorem suits_builtIn (env : Environment) :
    ∀ f ∈ Commands.builtIn, Offer.Suits (globalOptions env) (Commands.owner, f) := by
  have checked : (Commands.builtIn.all fun f => f.path.isWellFormed &&
      f.args.all fun a => (globalOptions env).all fun g => !Tree.sharesName a g) = true := rfl
  simpa [isWellFormed_iff_sound, Tree.sharesName_eq_false, Offer.Suits, Offer.path] using checked

/-- Compatible modules are those whose backends are apart and whose commands fit the built-in ones. -/
theorem composable_iff : Composable env modules ↔
    (modules.map (·.provider)).Pairwise Provider.Compatible ∧
      Offer.Fit (globalOptions env) [] (offers env modules) := by
  have distinct : (Commands.builtIn.map (·.path)).Nodup := by decide
  have suits : (∀ x ∈ offers env modules, x.Suits (globalOptions env)) ↔
      ∀ m ∈ modules, ∀ f ∈ m.commands env,
        f.path.Sound ∧ ∀ a ∈ f.args, ∀ g ∈ globalOptions env, a.Apart g := by
    simp only [offers, List.forall_mem_append, List.forall_mem_map, List.forall_mem_flatMap]
    exact ⟨And.right, fun each => ⟨suits_builtIn env, each⟩⟩
  simp only [Offer.Fit, suits, paths_offers, List.nodup_append, List.map_nil, List.not_mem_nil,
    not_false_eq_true, implies_true, and_true, distinct, true_and, List.pairwise_map]
  constructor
  · intro composable
    refine ⟨composable.backends, fun m inside f fragment =>
      ⟨composable.sound m inside f fragment, composable.apart m inside f fragment⟩, composable.distinct, ?_⟩
    intro p builtIn q claimed same
    obtain ⟨m, inside, member⟩ := List.mem_flatMap.mp claimed
    obtain ⟨f, fragment, rfl⟩ := List.mem_map.mp member
    exact composable.new m inside f fragment (same ▸ builtIn)
  · rintro ⟨backends, each, distinct, apart⟩
    exact {
      backends
      distinct
      sound := fun m inside f fragment => (each m inside f fragment).1
      apart := fun m inside f fragment => (each m inside f fragment).2
      new := fun m inside f fragment builtIn => apart f.path builtIn f.path
        (List.mem_flatMap.mpr ⟨m, inside, List.mem_map_of_mem fragment⟩) rfl }

theorem build_ok_iff :
    (∃ app, build name about version env modules = .ok app) ↔ Composable env modules := by
  rw [composable_iff]
  have registers : (∃ r, Registry.empty.registerAll (modules.map (·.provider)) = .ok r) ↔ _ :=
    Registry.registerAll_ok_iff Registry.indexed_empty
  have inserts : (∃ t, (Tree.empty name about version (globalOptions env)).insertEach (offers env modules) =
      .ok t) ↔ _ := Tree.insertEach_ok_iff (Tree.holds_empty name about version (globalOptions env)) rfl
  have free : ∀ p ∈ Registry.empty.providers, ∀ q ∈ modules.map (·.provider), p.Compatible q := by
    simp [Registry.empty]
  rw [and_iff_left free] at registers
  rw [← registers]
  change _ ↔ _ ∧ Offer.Fit (Tree.empty name about version (globalOptions env) : Tree Handler).globals [] _
  rw [← inserts]
  constructor
  · rintro ⟨app, done⟩
    obtain ⟨registered, tree, inserted, -⟩ := build_eq_ok_iff.mp done
    exact ⟨⟨_, registered⟩, tree, inserted⟩
  · rintro ⟨⟨registry, registered⟩, tree, inserted⟩
    exact ⟨⟨registry, tree.sealed⟩, build_eq_ok_iff.mpr ⟨registered, tree, inserted, rfl⟩⟩

/-- The tree of a composed application holds all offers, and is closed. -/
theorem build_holds {app : App} (done : build name about version env modules = .ok app) :
    app.tree.Holds (offers env modules) ∧ app.tree.isSealed = true ∧
      app.tree.globals = globalOptions env ∧ app.tree.version = version ∧ app.tree.name = name := by
  obtain ⟨-, tree, inserted, sealed⟩ := build_eq_ok_iff.mp done
  obtain ⟨holds, root, rfl⟩ := (Tree.holds_empty name about version (globalOptions env)).insertEach inserted
  rw [List.nil_append] at holds
  rw [sealed]
  exact ⟨holds.sealed, rfl, rfl, rfl, rfl⟩

/-- The tree of a composed application grew by all offers. -/
theorem build_grown {app : App} (done : build name about version env modules = .ok app) :
    app.tree.Grown (offers env modules) := by
  obtain ⟨-, tree, inserted, sealed⟩ := build_eq_ok_iff.mp done
  rw [sealed]
  exact (Tree.Grown.insertEach (.empty name about version (globalOptions env)) inserted).sealed

/-- The registry of a composed application answers for all modules. -/
theorem build_answers {app : App} (done : build name about version env modules = .ok app) :
    app.registry.Answers (modules.map (·.provider)) := by
  obtain ⟨registered, -⟩ := build_eq_ok_iff.mp done
  obtain ⟨same, held⟩ := Registry.registerAll_eq_ok registered
  have indexed : app.registry.Indexed := same ▸ Registry.indexed_attempts _ Registry.indexed_empty
  rw [show modules.map (·.provider) = app.registry.providers by simpa [Registry.empty] using held.symm]
  exact indexed.answers

theorem named_offers (composable : Composable env modules) : ∀ x ∈ offers env modules, x.path ≠ [] :=
  fun x member => ((composable_iff.mp composable).2.1 x member).1.1

end Build

/-- What a composed application consists of. -/
structure ComposedOf (app : App) (env : Environment) (modules : List Module) : Prop where
  /-- The claimed paths are those of the built-in commands and of the modules, each listed once. -/
  paths : app.tree.paths.Perm
    (Commands.builtIn.map (·.path) ++ modules.flatMap fun m => (m.commands env).map (·.path))
  /-- The owner of a path is the program itself or the module it comes from. -/
  owners : ∀ p owner, app.tree.owner? p = some owner ↔
    (p ∈ Commands.builtIn.map (·.path) ∧ owner = "relayer") ∨
      ∃ m ∈ modules, p ∈ (m.commands env).map (·.path) ∧ owner = m.provider.id
  isSealed : app.tree.isSealed = true
  registry : app.registry.Answers (modules.map (·.provider))

theorem composedOf_build {name : String} {about version : Option String} {env : Environment}
    {modules : List Module} {app : App} (done : build name about version env modules = .ok app) :
    app.ComposedOf env modules := by
  obtain ⟨holds, isSealed, -⟩ := build_holds done
  have composable := build_ok_iff.mp ⟨app, done⟩
  refine { isSealed, registry := build_answers done, paths := ?_, owners := ?_ }
  · rw [← paths_offers]
    exact holds.paths_perm (named_offers composable) (composable_iff.mp composable).2.2.1
  · intro p owner
    have owned : app.tree.owner? p = some owner ↔
        ∃ x ∈ offers env modules, x.path = p ∧ x.1 = owner := by
      simp only [Tree.owner?, Option.map_eq_some_iff, holds.claims]
      constructor
      · rintro ⟨c, ⟨x, member, path, rfl⟩, same⟩
        exact ⟨x, member, path, same⟩
      · rintro ⟨x, member, path, same⟩
        exact ⟨x.claim, ⟨x, member, path, rfl⟩, same⟩
    rw [owned]
    simp only [offers, List.mem_append, List.mem_map, List.mem_flatMap]
    constructor
    · rintro ⟨x, ⟨f, member, rfl⟩ | ⟨m, inside, f, member, rfl⟩, rfl, rfl⟩
      · exact .inl ⟨⟨f, member, rfl⟩, rfl⟩
      · exact .inr ⟨m, inside, ⟨f, member, rfl⟩, rfl⟩
    · rintro (⟨⟨f, member, rfl⟩, rfl⟩ | ⟨m, inside, ⟨f, member, rfl⟩, rfl⟩)
      · exact ⟨_, .inl ⟨f, member, rfl⟩, rfl, rfl⟩
      · exact ⟨_, .inr ⟨m, inside, f, member, rfl⟩, rfl, rfl⟩

theorem Composable.perm {env : Environment} {modules modules' : List Module}
    (perm : modules.Perm modules') (composable : Composable env modules) :
    Composable env modules' where
  backends := composable.backends.perm perm fun apart role first second same =>
    apart role second first same.symm
  sound := fun m inside => composable.sound m (perm.mem_iff.mpr inside)
  distinct := (perm.flatMap_right _).nodup_iff.mp composable.distinct
  new := fun m inside => composable.new m (perm.mem_iff.mpr inside)
  apart := fun m inside => composable.apart m (perm.mem_iff.mpr inside)

theorem route_eq_ok_iff {app : App} {argv : List RawText} {r : Routed Handler} :
    app.route argv = .ok r ↔ app.tree.sealed.route argv = .ok r := by
  simp only [route, parse, Tree.parse]
  cases app.tree.sealed.route argv <;> simp

/-- Applications of the same modules select the same commands with the same values. -/
theorem route_perm {name : String} {about version : Option String} {env : Environment}
    {modules modules' : List Module} {app app' : App} (perm : modules.Perm modules')
    (done : build name about version env modules = .ok app)
    (done' : build name about version env modules' = .ok app') {argv : List RawText}
    {i : Invocation Handler} (selected : app.route argv = .ok (.invocation i)) :
    app'.route argv = .ok (.invocation i) := by
  obtain ⟨holds, -, globals, version, -⟩ := build_holds done
  obtain ⟨holds', -, globals', version', -⟩ := build_holds done'
  have named := named_offers (build_ok_iff.mp ⟨app, done⟩)
  have members (x : Offer Handler) : x ∈ offers env modules ↔ x ∈ offers env modules' := by
    simp only [offers, List.mem_append, List.mem_flatMap, perm.mem_iff]
  have alike : app.tree.sealed.Alike app'.tree.sealed :=
    ⟨holds.sealed.alike holds'.sealed members, version.trans version'.symm, globals.trans globals'.symm⟩
  rw [route_eq_ok_iff] at selected ⊢
  exact alike.route (holds.sealed.unclaimed named) selected

/-- An application is composed exactly of compatible modules. It then consists of the built-in commands
and of what the modules bring; in another order the same modules compose an application that selects
the same commands with the same values. -/
theorem build_iff_composable (name : String) (about version : Option String) (env : Environment)
    (modules : List Module) :
    ((∃ app, build name about version env modules = .ok app) ↔ Composable env modules) ∧
    (∀ app, build name about version env modules = .ok app → app.ComposedOf env modules) ∧
    ∀ modules', modules.Perm modules' →
      ((∃ app, build name about version env modules = .ok app) ↔
        ∃ app', build name about version env modules' = .ok app') ∧
      ∀ app app', build name about version env modules = .ok app →
        build name about version env modules' = .ok app' →
        ∀ argv i, app.route argv = .ok (.invocation i) ↔ app'.route argv = .ok (.invocation i) := by
  refine ⟨build_ok_iff, fun app done => composedOf_build done, ?_⟩
  intro modules' perm
  refine ⟨?_, ?_⟩
  · rw [build_ok_iff, build_ok_iff]
    exact ⟨.perm perm, .perm perm.symm⟩
  · intro app app' done done' argv i
    exact ⟨route_perm perm done done', route_perm perm.symm done' done⟩

/-- A module without roles that adds one command without effect below `chains`. -/
def bareModule (id : String) : Module :=
  { provider := Registry.bareProvider id []
    commands := fun _ => [{ path := ["chains", id], about := "", handler := some fun _ => pure () }] }

/-- Two modules below one built-in group compose an application in both orders. -/
theorem build_iff_composable_pair : ∃ app app',
    build "relayer" none none (fun _ => none) [bareModule "a", bareModule "b"] = .ok app ∧
    build "relayer" none none (fun _ => none) [bareModule "b", bareModule "a"] = .ok app' ∧
    ∀ argv i, app.route argv = .ok (.invocation i) ↔ app'.route argv = .ok (.invocation i) := by
  refine ⟨_, _, rfl, rfl, ?_⟩
  exact ((build_iff_composable "relayer" none none (fun _ => none) [bareModule "a", bareModule "b"]).2.2
    [bareModule "b", bareModule "a"] (.swap _ _ [])).2 _ _ rfl rfl

end App

end ChainRelay
