import ChainRelay.Proofs.Command.Places
import ChainRelay.Proofs.Extension

/-! # The options of every command

The options for the folder, the log level and the collector belong to every command of an application. Each of them may
stand anywhere around the names of a command, unless an argument of a command on the way minds the option beside it, and
what the command line says is stronger than what the environment has or a default says.
-/

namespace ChainRelay.App

open Args

section GlobalOptions

variable {env : Environment} {g : ArgSpec} (member : g ∈ globalOptions env)
include member

theorem apart_globalOptions : ∀ a ∈ globalOptions env, a = g ∨ a.Apart g := by
  simp only [globalOptions, List.mem_cons, List.not_mem_nil, or_false] at member ⊢
  rintro a (rfl | rfl | rfl) <;> rcases member with rfl | rfl | rfl <;>
    simp [ArgSpec.Apart, homeOption, levelOption, collectorOption]

theorem given_globalOption {flag : String} (long : g.long = some flag) {value : String} (filled : value ≠ "") :
    g.Given flag value := by
  have units : RawText.ofString value ≠ [] := by simpa [RawText.ofString] using filled
  simp only [globalOptions, List.mem_cons, List.not_mem_nil, or_false] at member
  rcases member with rfl | rfl | rfl <;> cases long
  · exact ⟨⟨rfl, rfl⟩, by decide, rfl, by simp [checkValue, units]⟩
  · exact ⟨⟨rfl, rfl⟩, by decide, rfl, by simp [checkValue]⟩
  · exact ⟨⟨rfl, rfl⟩, by decide, rfl, by simp [checkValue]⟩

/-- Every command of a composed application takes its options. -/
theorem takes_globalOption {t : Tree Handler} (globals : t.globals = globalOptions env) : t.Takes g where
  member := globals ▸ member
  apart := globals ▸ apart_globalOptions member
  ignored a inside := (plain_globalOptions env a (globals ▸ inside)).ignores g.id
  plain := plain_globalOptions env g member
  help := by
    simp only [globalOptions, List.mem_cons, List.not_mem_nil, or_false] at member
    rcases member with rfl | rfl | rfl <;> simp [ArgSpec.Apart, helpOption, homeOption, levelOption, collectorOption]
  version := by
    simp only [globalOptions, List.mem_cons, List.not_mem_nil, or_false] at member
    rcases member with rfl | rfl | rfl <;>
      simp [ArgSpec.Apart, versionOption, homeOption, levelOption, collectorOption]

end GlobalOptions

/-- What the environment has for the options is admitted. -/
def Admits (env : Environment) : Prop :=
  ∀ g ∈ globalOptions env, ∀ v, standIn? g = some v → checkValue g v = .ok ()

/-- The options can then be left out. -/
theorem Admits.omissible {env : Environment} (admits : Admits env) : ∀ g ∈ globalOptions env, g.Omissible := by
  intro g member
  have optional : g.action = .set ∧ g.required = false ∧
      ∀ v, defaultValue? g = some v → ∃ held, holdValue g none (some v) = .ok held := by
    simp only [globalOptions, List.mem_cons, List.not_mem_nil, or_false] at member
    rcases member with rfl | rfl | rfl <;> simp [defaultValue?, holdValue, checkValue, Except.map]
  refine omissible_of_optional optional.2.1 (fun v value => ⟨.values [v], ?_⟩) optional.2.2
  simp [holdValue, optional.1, admits g member v value, Except.map]

/-- Two command lines lead to the same, or are both refused for their usage. -/
def SameEnd : Except Error (Routed Handler) → Except Error (Routed Handler) → Prop
  | .ok r, .ok r' => r.Same r'
  | .error (.usage _), .error (.usage _) => True
  | _, _ => False

theorem sameEnd_of_tree {app : App} {argv argv' : List RawText}
    (same : Routed.SameEnd (app.tree.sealed.route argv) (app.tree.sealed.route argv')) :
    SameEnd (app.route argv) (app.route argv') := by
  unfold route parse Tree.parse
  revert same
  cases app.tree.sealed.route argv <;> cases app.tree.sealed.route argv' <;> exact id

/-- Where an option for all commands stands among the names of a command makes no difference if no argument on the way
to that command wants to be alone, rules the option out or asks for it. The command that is selected has the value that
the option gives, whatever the environment has and the default says. -/
theorem route_places {name : String} {about version : Option String} {env : Environment} {modules : List Module}
    {app : App} (done : build name about version env modules = .ok app) {g : ArgSpec} (member : g ∈ globalOptions env)
    {flag : String} (long : g.long = some flag) {value : String} (filled : value ≠ "") {p : CommandPath}
    (named : p ≠ []) (command : (app.tree.root.get? p).isSome)
    (ignored : ∀ q c, q <+: p → app.tree.claim? q = some c → ∀ a ∈ c.args, a.Ignores g.id) {rest : List RawText}
    (once : ∀ t ∈ rest.takeWhile (· != escape), gives flag t = false) (program : RawText) :
    (∀ i j, i ≤ p.length → j ≤ p.length →
      SameEnd (app.route (Tree.lineAt program p (optionToken flag value) rest i))
        (app.route (Tree.lineAt program p (optionToken flag value) rest j))) ∧
    ∀ i invocation, i ≤ p.length →
      app.route (Tree.lineAt program p (optionToken flag value) rest i) = .ok (.invocation invocation) →
      invocation.matched.get? g.id =
        some { id := g.id, kind := g.kind, source := .commandLine, held := .values [RawText.ofString value] } := by
  have grown := (build_grown done).sealed
  obtain ⟨-, -, globals, -⟩ := build_holds done
  have takes : app.tree.sealed.Takes g := takes_globalOption member globals
  have given := given_globalOption member long filled
  constructor
  · intro i j first second
    apply sameEnd_of_tree
    exact grown.sameEnd_places takes given named command ignored (.inr once) program first second
  · intro i invocation inside routed
    exact grown.get?_place takes given named command ignored (.inr once) program inside (route_eq_ok_iff.mp routed)

/-- A command with one option. -/
def probeModule (a : ArgSpec) : Module :=
  commandModule "probe" fun _ =>
    [{ path := ["probe"], about := "", args := [a], handler := some fun _ => pure () }]

def allOption : ArgSpec :=
  { id := "all", long := some "all", action := .flag }

/-- A command of the application is selected with the option for the folder at one of two places, and refused with the
option at the other. -/
def Displaces (env : Environment) (modules : List Module) (p : CommandPath) (rest : List String) (i j : Nat) : Prop :=
  ∃ app, build "relayer" none none env modules = .ok app ∧
    let line := Tree.lineAt (RawText.ofString "relayer") p (optionToken "home" "x") (rest.map RawText.ofString)
    (∃ invocation, app.route (line i) = .ok (.invocation invocation)) ∧ ∃ u, app.route (line j) = .error (.usage u)

theorem displaces_of_cause {env : Environment} {modules : List Module} {app : App} {p : CommandPath}
    {rest : List String} {i j : Nat} (done : build "relayer" none none env modules = .ok app)
    (runs : ((offers env modules).any fun x => x.path == p && x.2.handler.isSome) = true)
    (reached : (innermost? app.tree (Tree.lineAt (RawText.ofString "relayer") p (optionToken "home" "x")
      (rest.map RawText.ofString) i)).map (·.1) = some p)
    (refused : (app.tree.cause? (Tree.lineAt (RawText.ofString "relayer") p (optionToken "home" "x")
      (rest.map RawText.ofString) j)).isSome) : Displaces env modules p rest i j := by
  obtain ⟨invocation, selected, -⟩ := route_of_innermost (build_grown done) p reached runs
  exact ⟨app, done, ⟨invocation, selected⟩, route_of_cause refused⟩

/-- An argument that wants to be alone, or rules the option out, minds the option beside it but not in front of the
command, and one that asks for the option wants it beside it. An empty value of the environment is refused at every
place, although the command line has another value. -/
theorem places_matter :
    Displaces (fun _ => none) [probeModule { allOption with exclusive := true }] ["probe"] ["--all"] 0 1 ∧
    Displaces (fun _ => none) [probeModule { allOption with conflicts := [homeOption] }] ["probe"] ["--all"] 0 1 ∧
    Displaces (fun _ => none) [probeModule { allOption with requires := [homeOption] }] ["probe"] ["--all"] 1 0 ∧
    ∃ app u, build "relayer" none none (fun name => if name = "RELAYER_HOME" then some [] else none) [] = .ok app ∧
      app.route (["relayer", "chains", "list", "--home=x"].map RawText.ofString) = .error (.usage u) := by
  refine ⟨?_, ?_, ?_, ?_⟩
  · exact displaces_of_cause (build_treeOf _ _ rfl rfl) rfl (by cbv) (by cbv)
  · exact displaces_of_cause (build_treeOf _ _ rfl rfl) rfl (by cbv) (by cbv)
  · exact displaces_of_cause (build_treeOf _ _ rfl rfl) rfl (by cbv) (by cbv)
  · have refused : ((treeOf (fun name => if name = "RELAYER_HOME" then some [] else none) []).sealed.cause?
        (["relayer", "chains", "list", "--home=x"].map RawText.ofString)).isSome := by
      cbv
    have done := build_treeOf (fun name => if name = "RELAYER_HOME" then some [] else none) [] rfl rfl
    obtain ⟨u, failed⟩ := @route_of_cause ⟨_, _⟩ _ refused
    exact ⟨_, u, done, failed⟩

/-- No argument of the commands that every application has says anything of others. -/
theorem plain_builtIn : ∀ f ∈ Commands.builtIn, ∀ a ∈ f.args, a.Plain := by
  have checked : (Commands.builtIn.all fun f => f.args.all fun a =>
      !a.exclusive && a.conflicts.isEmpty && a.requires.isEmpty) = true := by
    rfl
  simp only [List.all_eq_true, Bool.and_eq_true, Bool.not_eq_true', List.isEmpty_iff] at checked
  intro f fragment a member
  obtain ⟨⟨alone, conflicts⟩, requires⟩ := checked f fragment a member
  exact ⟨alone, conflicts, requires⟩

/-- An environment that has a log level. -/
def quietEnvironment : Environment := fun name =>
  if name = "RELAYER_LOG_LEVEL" then some (RawText.ofString "warn") else none

/-- In front of a command and behind it the log level is the same, and stronger than that of the environment. -/
theorem route_places_log_level :
    let line := Tree.lineAt (RawText.ofString "relayer") ["chains", "add-dir"] (optionToken "log-level" "debug")
      [RawText.ofString "x"]
    ∃ app i j, build "relayer" none none quietEnvironment [] = .ok app ∧
      app.route (line 0) = .ok (.invocation i) ∧ app.route (line 2) = .ok (.invocation j) ∧ i.path = j.path ∧
      (∀ id, i.matched.get? id = j.matched.get? id) ∧
      j.matched.get? levelOption = some ⟨levelOption, .text, .commandLine, .values [RawText.ofString "debug"]⟩ := by
  intro line
  have composed : build "relayer" none none quietEnvironment [] = _ := build_treeOf quietEnvironment [] rfl rfl
  have reached : (innermost? (treeOf quietEnvironment []).sealed (line 0)).map (·.1) = some ["chains", "add-dir"] := by
    cbv
  obtain ⟨app, i, done, command, first⟩ : ∃ app i, build "relayer" none none quietEnvironment [] = .ok app ∧
      (app.tree.root.get? ["chains", "add-dir"]).isSome ∧ app.route (line 0) = .ok (.invocation i) := by
    obtain ⟨i, selected, -⟩ := route_of_innermost (build_grown composed) _ reached rfl
    exact ⟨_, i, composed, rfl, selected⟩
  have member : _ ∈ globalOptions quietEnvironment := List.mem_cons_of_mem _ List.mem_cons_self
  have filled : "debug" ≠ "" := by decide
  have once : ∀ t ∈ [RawText.ofString "x"].takeWhile (· != escape), gives "log-level" t = false := by decide
  have ignored : ∀ q c, q <+: ["chains", "add-dir"] → app.tree.claim? q = some c →
      ∀ a ∈ c.args, a.Ignores levelOption := by
    intro q c _ claimed a inside
    obtain ⟨x, offered, -, rfl⟩ := ((build_grown done).holds.claims q c).mp claimed
    rw [offers, List.flatMap_nil, List.append_nil] at offered
    obtain ⟨f, fragment, rfl⟩ := List.mem_map.mp offered
    exact (plain_builtIn f fragment a inside).ignores levelOption
  have places := route_places done member rfl filled (List.cons_ne_nil _ _) command ignored once
    (RawText.ofString "relayer")
  have same : SameEnd (app.route (line 0)) (app.route (line 2)) := places.1 0 2 (by decide) (by decide)
  rw [first] at same
  cases second : app.route (line 2) with
  | error e =>
      rw [second] at same
      exact same.elim
  | ok answer =>
      rw [second] at same
      cases answer with
      | help text => exact same.elim
      | invocation j => exact ⟨app, i, j, done, first, second, same.1, same.2.2, places.2 2 j (by decide) second⟩

end ChainRelay.App
