import ChainRelay.Proofs.Command.Extension
import ChainRelay.Proofs.Composition

/-! # Applications with a further module

A module adds commands also below those that are there. Then what was the value of a positional argument can
be the name of a command, and a group that stood in front of a command can ask for a value or pass one on to
that command. Apart from that a module leaves alone what the command lines select.
-/

namespace ChainRelay.App

open Args

section Build

variable {name : String} {about version : Option String} {env : Environment} {before after : List Module}
  {m : Module} {small large : App}

theorem mem_offers_insert {x : Offer Handler} :
    x ∈ offers env (before ++ m :: after) ↔
      x ∈ offers env (before ++ after) ∨ ∃ f ∈ m.commands env, (m.provider.id, f) = x := by
  simp only [offers, List.flatMap_append, List.flatMap_cons, List.mem_append, List.mem_map]
  constructor
  · rintro (builtIn | before | new | after)
    · exact .inl (.inl builtIn)
    · exact .inl (.inr (.inl before))
    · exact .inr new
    · exact .inl (.inr (.inr after))
  · rintro ((builtIn | before | after) | new)
    · exact .inl builtIn
    · exact .inr (.inl before)
    · exact .inr (.inr (.inr after))
    · exact .inr (.inr (.inl new))

theorem named_globalOptions (env : Environment) : ∀ g ∈ globalOptions env, g.isPositional = false := by
  simp [globalOptions, ArgSpec.isPositional]

theorem plain_globalOptions (env : Environment) : ∀ g ∈ globalOptions env, g.Plain := by
  intro g member
  simp only [globalOptions, List.mem_cons, List.not_mem_nil, or_false] at member
  rcases member with rfl | rfl | rfl <;> exact ⟨rfl, rfl, rfl⟩

theorem route_insert (done : build name about version env (before ++ after) = .ok small)
    (done' : build name about version env (before ++ m :: after) = .ok large) {argv : List RawText}
    {i : Invocation Handler} (selected : small.route argv = .ok (.invocation i))
    (unaffected : ∀ f ∈ m.commands env, f.path ∉ (offers env (before ++ after)).map Offer.path →
      small.tree.sealed.Unaffected argv i.path f) : large.route argv = .ok (.invocation i) := by
  obtain ⟨-, -, globals, release, -⟩ := build_holds done
  obtain ⟨-, -, globals', release', -⟩ := build_holds done'
  rw [route_eq_ok_iff] at selected ⊢
  have more : ∀ x ∈ offers env (before ++ after), x ∈ offers env (before ++ m :: after) :=
    fun x member => mem_offers_insert.mpr (.inl member)
  have unaffected' : ∀ y ∈ offers env (before ++ m :: after),
      y.path ∉ (offers env (before ++ after)).map Offer.path → small.tree.sealed.Unaffected argv i.path y.2 := by
    intro y member new
    cases mem_offers_insert.mp member with
    | inl old => exact absurd (List.mem_map_of_mem old) new
    | inr added =>
        obtain ⟨f, inside, rfl⟩ := added
        exact unaffected f inside new
  have plain : ∀ g ∈ small.tree.sealed.globals, g.Plain :=
    fun g member => plain_globalOptions env g (globals ▸ member)
  exact (build_grown done).sealed.route_of_more (build_grown done').sealed more selected unaffected'
    (globals'.trans globals.symm) (release'.trans release.symm) plain

/-- A further module leaves alone what a command line selects, with its values, if all of its fragments do: at groups
on the way to that command its arguments go unnoticed, and no value of a positional argument is the name of one of its
commands right below. It leaves all selections alone if the tree is indifferent to its fragments: the groups that it
claims take nothing but arguments that go unnoticed, and its new names stand below commands without positional
arguments. -/
theorem route_of_insert (done : build name about version env (before ++ after) = .ok small)
    (done' : build name about version env (before ++ m :: after) = .ok large) :
    (∀ argv i, small.route argv = .ok (.invocation i) →
      (∀ f ∈ m.commands env, small.tree.Unaffected argv i.path f) → large.route argv = .ok (.invocation i)) ∧
    ((∀ f ∈ m.commands env, small.tree.Indifferent f) →
      ∀ argv i, small.route argv = .ok (.invocation i) → large.route argv = .ok (.invocation i)) := by
  constructor
  · intro argv i selected unaffected
    exact route_insert done done' selected fun f inside _ => (unaffected f inside).sealed
  · intro indifferent argv i selected
    have grown := (build_grown done).sealed
    obtain ⟨-, -, globals, -⟩ := build_holds done
    apply route_insert done done' selected
    intro f inside new
    exact grown.unaffected (globals ▸ named_globalOptions env) (indifferent f inside).sealed new
      (route_eq_ok_iff.mp selected)

end Build

/-- The path and the values of the innermost level that a command line enters. -/
def innermost? (t : Tree Handler) (argv : List RawText) : Option (CommandPath × Matches) :=
  match t.interface.parse (Tree.calledAs? argv) argv.tail with
  | .selected chain => chain.getLast?.map fun entry => (entry.1.path, entry.2)
  | _ => none

theorem route_of_innermost {app : App} {xs : List (Offer Handler)} (grown : app.tree.Grown xs) {argv : List RawText}
    (p : CommandPath) (reached : (innermost? app.tree argv).map (·.1) = some p)
    (runs : (xs.any fun x => x.path == p && x.2.handler.isSome) = true) :
    ∃ i, app.route argv = .ok (.invocation i) ∧ i.path = p ∧ (innermost? app.tree argv).map (·.2) = some i.matched := by
  obtain ⟨⟨path, matched⟩, found, rfl⟩ := Option.map_eq_some_iff.mp reached
  rw [found]
  unfold innermost? at found
  split at found
  · next chain selected =>
      obtain ⟨⟨level, values⟩, last, same⟩ := Option.map_eq_some_iff.mp found
      rw [Prod.mk.injEq] at same
      obtain ⟨rfl, rfl⟩ := same
      obtain ⟨x, member, claimed⟩ := List.any_eq_true.mp runs
      obtain ⟨path, has⟩ := (Bool.and_eq_true _ _).mp claimed
      have path : x.path = level.path := beq_iff_eq.mp path
      obtain ⟨handler, has⟩ := Option.isSome_iff_exists.mp has
      obtain ⟨n, there⟩ := Option.isSome_iff_exists.mp
        ((grown.holds.commands level.path).mpr (.inr ⟨x, member, path ▸ List.prefix_refl _⟩))
      have handled : n.handler? = some handler :=
        (grown.holds.handler?_eq_some_iff there).mpr ⟨x, member, path, has⟩
      refine ⟨{ path := level.path, matched := values, handler }, route_eq_ok_iff.mpr ?_, rfl, rfl⟩
      exact (Tree.route_eq_invocation_iff grown.sealed.unclaimed).mpr
        ⟨chain, level, n, selected, last, rfl, there, handled⟩
  · cases found

/-- A selected command has the values of the innermost level. -/
theorem innermost?_of_route {app : App} {xs : List (Offer Handler)} (grown : app.tree.Grown xs) {argv : List RawText}
    {i : Invocation Handler} (routed : app.route argv = .ok (.invocation i)) :
    (innermost? app.tree argv).map (·.2) = some i.matched := by
  obtain ⟨chain, level, n, selected, last, -⟩ :=
    (Tree.route_eq_invocation_iff grown.sealed.unclaimed).mp (route_eq_ok_iff.mp routed)
  have selected : app.tree.interface.parse (Tree.calledAs? argv) argv.tail = .selected chain := selected
  rw [innermost?, selected]
  simp only [last, Option.map_some]

theorem route_of_cause {app : App} {argv : List RawText} (refused : (app.tree.cause? argv).isSome) :
    ∃ u, app.route argv = .error (.usage u) := by
  obtain ⟨cause, failed⟩ := Option.isSome_iff_exists.mp refused
  obtain ⟨u, failed, -⟩ := Tree.nearest_of_cause failed
  refine ⟨u, ?_⟩
  unfold route parse
  rcases parsed : app.tree.parse argv with ⟨_ | _, tree⟩ <;> rw [parsed] at failed <;> cases failed
  rfl

/-- A command line selects a command, but with the module not that command with the same values. -/
def Disturbs (env : Environment) (modules : List Module) (m : Module) (argv : List String) : Prop :=
  ∃ small large i, build "relayer" none none env modules = .ok small ∧
    build "relayer" none none env (modules ++ [m]) = .ok large ∧
    small.route (argv.map RawText.ofString) = .ok (.invocation i) ∧
    ∀ j, large.route (argv.map RawText.ofString) = .ok (.invocation j) → j.path = i.path → j.matched ≠ i.matched

def treeOf (env : Environment) (modules : List Module) : Tree Handler :=
  (offers env modules).foldl (fun t x => { t with root := t.root.insert x.claim x.path })
    (.empty "relayer" none none (globalOptions env))

theorem build_treeOf (env : Environment) (modules : List Module) {registry : Registry}
    (registered : Registry.empty.registerAll (modules.map (·.provider)) = .ok registry)
    (inserted : (Tree.empty "relayer" none none (globalOptions env)).insertEach (offers env modules) =
      .ok (treeOf env modules)) :
    build "relayer" none none env modules = .ok ⟨registry, (treeOf env modules).sealed⟩ :=
  build_eq_ok_iff.mpr ⟨registered, _, inserted, rfl⟩

section Disturbs

variable {env : Environment} {modules : List Module} {m : Module} {argv : List String} {small large : App}
  (done : build "relayer" none none env modules = .ok small)
  (done' : build "relayer" none none env (modules ++ [m]) = .ok large) (p : CommandPath)
  (runs : ((offers env modules).any fun x => x.path == p && x.2.handler.isSome) = true)
  (reached : (innermost? small.tree (argv.map RawText.ofString)).map (·.1) = some p)
include done done' runs reached

theorem disturbs_of_cause (refused : (large.tree.cause? (argv.map RawText.ofString)).isSome) :
    Disturbs env modules m argv := by
  obtain ⟨i, selected, -⟩ := route_of_innermost (build_grown done) p reached runs
  refine ⟨small, large, i, done, done', selected, ?_⟩
  intro j other
  obtain ⟨u, failed⟩ := route_of_cause refused
  cases failed.symm.trans other

theorem disturbs_of_values (other : (innermost? large.tree (argv.map RawText.ofString)).map (·.2) ≠
      (innermost? small.tree (argv.map RawText.ofString)).map (·.2)) : Disturbs env modules m argv := by
  obtain ⟨i, selected, -, values⟩ := route_of_innermost (build_grown done) p reached runs
  refine ⟨small, large, i, done, done', selected, ?_⟩
  intro j routed _ same
  apply other
  rw [innermost?_of_route (build_grown done') routed, values, same]

end Disturbs

def commandModule (id : String) (commands : Environment → List (Fragment Handler)) : Module :=
  { provider := Registry.bareProvider id [], commands }

/-- A command below `chains add-dir`, which takes the name of a folder. -/
def newModule : Module :=
  commandModule "new" fun _ =>
    [{ path := ["chains", "add-dir", "new"], about := "", handler := some fun _ => pure () }]

/-- A command below a group that nobody claims. -/
def pingModule : Module :=
  commandModule "ping" fun _ => [{ path := ["mock", "ping"], about := "", handler := some fun _ => pure () }]

/-- The group is claimed with an argument. -/
def groupModule (a : Environment → ArgSpec) : Module :=
  commandModule "group" fun env => [{ path := ["mock"], about := "", args := [a env] }]

/-- The name of a folder, which the environment may have. -/
def storeOption (env : Environment) : ArgSpec :=
  { id := "store", long := some "store", kind := .path, env := some (env.fallback "STORE" false) }

/-- A command below a group that nobody claims, with an option. -/
def weightModule : Module :=
  commandModule "weight" fun _ =>
    [{ path := ["a", "b"], about := "", args := [{ id := "w", long := some "w" }], handler := some fun _ => pure () }]

/-- The group is claimed with an option of the same id, which the commands below it take as well. -/
def passingModule : Module :=
  commandModule "passing" fun _ =>
    [{ path := ["a"], about := ""
       args := [{ id := "w", long := some "w2", default := some "1", passedOn := true }] }]

/-- A value becomes the name of a command; a group asks for an option; the environment has an empty name where a
group takes the name of a folder; a group passes on an option, and its default becomes the value of an option of the
selected command. -/
theorem modules_disturb :
    Disturbs (fun _ => none) [] newModule ["relayer", "chains", "add-dir", "new"] ∧
    Disturbs (fun _ => none) [pingModule] (groupModule fun env => { storeOption env with required := true })
      ["relayer", "mock", "ping"] ∧
    Disturbs (fun name => if name = "STORE" then some [] else none) [pingModule] (groupModule storeOption)
      ["relayer", "mock", "ping"] ∧
    Disturbs (fun _ => none) [weightModule] passingModule ["relayer", "a", "b"] := by
  refine ⟨?_, ?_, ?_, ?_⟩
  · apply disturbs_of_cause (build_treeOf _ _ rfl rfl) (build_treeOf _ _ rfl rfl) ["chains", "add-dir"] rfl
    · cbv
    · cbv
  · apply disturbs_of_cause (build_treeOf _ _ rfl rfl) (build_treeOf _ _ rfl rfl) ["mock", "ping"] rfl
    · cbv
    · cbv
  · apply disturbs_of_cause (build_treeOf _ _ rfl rfl) (build_treeOf _ _ rfl rfl) ["mock", "ping"] rfl
    · cbv
    · cbv
  · apply disturbs_of_values (build_treeOf _ _ rfl rfl) (build_treeOf _ _ rfl rfl) ["a", "b"] rfl
    · cbv
    · cbv
      simp

theorem unaffected_new {p : CommandPath} {argv : List RawText}
    (placed : (treeOf (fun _ => none) []).sealed.placed argv = [(["chains", "add-dir"], RawText.ofString "x")]) :
    ∀ f ∈ newModule.commands fun _ => none, (treeOf (fun _ => none) []).sealed.Unaffected argv p f := by
  intro f member
  obtain rfl := List.mem_singleton.mp member
  refine { unnoticed := fun _ => unnoticed_nil _, ids := ?_, places := ?_, names := ?_ }
  · intro _ a absent
    cases absent
  · intro v _ a absent
    cases absent
  · intro q word above there
    rw [placed, List.mem_singleton, Prod.mk.injEq] at there
    have same := congrArg RawText.toString? there.2
    rw [RawText.toString?_ofString, RawText.toString?_ofString, Option.some.injEq] at same
    rw [there.1, same] at above
    exact absurd above (by decide)

theorem indifferent_bare :
    ∀ f ∈ (bareModule "new").commands fun _ => none, (treeOf (fun _ => none) []).sealed.Indifferent f := by
  intro f member
  obtain rfl := List.mem_singleton.mp member
  refine { unnoticed := fun _ => unnoticed_nil _, ids := ?_, places := .inr ?_, names := ?_ }
  · intro p _ a absent
    cases absent
  · intro a absent
    cases absent
  · intro q word above
    change q ++ [word] <+: ["chains", "new"] at above
    cases q with
    | nil =>
        obtain ⟨rfl, -⟩ := List.cons_prefix_cons.mp above
        exact .inl rfl
    | cons group rest =>
        obtain ⟨rfl, above⟩ := List.cons_prefix_cons.mp above
        cases rest with
        | nil =>
            refine .inr ⟨?_, ?_⟩
            · intro b passed
              cases passed
            · intro c claimed a inside
              cases claimed
              cases inside
        | cons other rest => simpa using above.length_le

/-- A new name may be the value of an option, and beside `chains add-dir` also a value that the command takes. -/
theorem route_of_insert_new :
    let option := ["relayer", "chains", "add-dir", "--home", "new", "x"].map RawText.ofString
    let value := ["relayer", "chains", "add-dir", "new"].map RawText.ofString
    ∃ small below beside i j,
      build "relayer" none none (fun _ => none) [] = .ok small ∧
      build "relayer" none none (fun _ => none) [newModule] = .ok below ∧
      build "relayer" none none (fun _ => none) [bareModule "new"] = .ok beside ∧
      below.route option = .ok (.invocation i) ∧ i.path = ["chains", "add-dir"] ∧
      beside.route value = .ok (.invocation j) ∧ j.path = ["chains", "add-dir"] := by
  intro option value
  have small : build "relayer" none none (fun _ => none) ([] ++ []) = _ := build_treeOf _ [] rfl rfl
  have below : build "relayer" none none (fun _ => none) ([] ++ newModule :: []) = _ :=
    build_treeOf _ _ rfl rfl
  have beside : build "relayer" none none (fun _ => none) ([] ++ bareModule "new" :: []) = _ :=
    build_treeOf _ _ rfl rfl
  have first : (innermost? (treeOf (fun _ => none) []).sealed option).map (·.1) = some ["chains", "add-dir"] := by
    cbv
  have second : (innermost? (treeOf (fun _ => none) []).sealed value).map (·.1) = some ["chains", "add-dir"] := by
    cbv
  have placed : (treeOf (fun _ => none) []).sealed.placed option =
      [(["chains", "add-dir"], RawText.ofString "x")] := by
    cbv
  obtain ⟨i, selected, path, -⟩ := route_of_innermost (build_grown small) _ first rfl
  obtain ⟨j, selected', path', -⟩ := route_of_innermost (build_grown small) _ second rfl
  have kept := (route_of_insert small below).1 _ i selected (unaffected_new placed)
  have kept' := (route_of_insert small beside).2 indifferent_bare _ j selected'
  exact ⟨_, _, _, i, j, small, below, beside, kept, path, kept', path'⟩

end ChainRelay.App
