import ChainRelay.Proofs.Commands.Adding
import ChainRelay.Proofs.Effects.Carrying
import ChainRelay.Proofs.Effects.Spans

/-! # Building backends

To build a backend is to call one factory, once, with the configured value. A configuration that is not
valid, or a module without a factory for the role, is refused before that. What the factory returns is
taken if it is a backend for the role.
-/

namespace ChainRelay

/-- The program takes note of no call of a factory. -/
def Program.BuildsNothing : Program α → Prop
  | .done _ => True
  | .ask q next => (∀ n role v, q ≠ .construct n role v) ∧ ∀ answer, BuildsNothing (next answer)
  | .pause next => BuildsNothing next
  | .awaitCancel next => BuildsNothing next
  | .hang => True

theorem Program.BuildsNothing.only {p : Program α} (nothing : p.BuildsNothing) :
    p.Only fun q => ∀ n role v, q ≠ .construct n role v := by
  induction p with
  | done | hang => trivial
  | ask q next ih => exact ⟨nothing.1, fun answer => ih answer (nothing.2 answer)⟩
  | pause next ih => exact ih nothing
  | awaitCancel next ih => exact ih nothing

namespace World

/-- The world in which a factory has just been called. -/
def noting (w : World) (call : Construction) : World :=
  { w with constructed := call :: w.constructed }

@[simp] theorem constructed_noting (w : World) (call : Construction) :
    (w.noting call).constructed = call :: w.constructed := rfl

@[simp] theorem constructed_relog (w : World) (entries : List LogEntry) :
    (w.relog entries).constructed = w.constructed := rfl

theorem constructed_keep (w : World) (entry : LogEntry) : (w.keep entry).constructed = w.constructed := by
  obtain ⟨entries, kept⟩ := keep_eq w entry
  rw [kept, constructed_relog]

theorem constructed_answer (w : World) {q : Question} (other : ∀ n role v, q ≠ .construct n role v) :
    (w.answer q).2.constructed = w.constructed := by
  cases q with
  | print text => exact constructed_afterPrint _ text
  | openLog limit => by_cases opened : w.logLimit.isSome <;> simp [answer, opened]
  | log entry => exact constructed_keep w entry
  | writeFile path content => cases wrote : w.files.write path content <;> simp [answer, settle, wrote]
  | createFoldersAround path =>
      rcases made : w.files.createFoldersAround path with ⟨files, _ | e⟩ <;> simp [answer, made]
  | post address body => cases left : w.replies <;> simp [answer, left]
  | readFile | listFolder | fileExists | userHome | isCancelled => rfl
  | construct n role v => exact absurd rfl (other n role v)

theorem carried_constructed :
    Carried (fun q => ∀ n role v, q ≠ .construct n role v) fun w w' => w'.constructed = w.constructed where
  refl w := rfl
  trans first second := second.trans first
  answer w _ other := constructed_answer w other
  interrupted w := by
    simp only [World.interrupted]
    split <;> rw [constructed_keep]
  pass w := by
    unfold World.pass
    split <;> rfl
  stop w := rfl

theorem run_constructed {p : Program α} (nothing : p.BuildsNothing) (w : World) :
    (run p w).2.constructed = w.constructed :=
  carried_constructed.run nothing.only w

end World

namespace Registry

variable {r : Registry} {role : Role} {c : BackendConfig}

theorem factoryFor_of_invalid {e : Error} (invalid : r.validate role c = .error e) :
    r.factoryFor role c = .error e := by
  simp [factoryFor, invalid, bind, Except.bind]

theorem factoryFor_of_valid (valid : r.validate role c = .ok ()) :
    ∃ n p, r.resolve role c.module = .ok (n, p) ∧ r.factoryFor role c = (p.factory role).map (n, ·) := by
  cases found : r.resolve role c.module with
  | error e => simp [validate, found, bind, Except.bind] at valid
  | ok entry =>
      obtain ⟨n, p⟩ := entry
      refine ⟨n, p, rfl, ?_⟩
      cases made : p.factory role <;>
        simp [factoryFor, valid, found, made, bind, Except.bind, Except.map, pure, Except.pure]

theorem validate_of_rejected {n : Nat} {p : Provider} {schema : Schema} {fault : SchemaError}
    (found : r.resolve role c.module = .ok (n, p)) (described : p.schema role = .ok schema)
    (rejected : schema.validate c.config = .error fault) :
    r.validate role c = .error (.configuration role c.module (.plain fault.message)) := by
  simp [validate, found, described, rejected, bind, Except.bind, throw, throwThe, MonadExceptOf.throw]

/-- The call of a factory, in the world that has taken note of it. -/
def called (create : Factory) (call : Construction) (w : World) : Ending (Except Report Backend) × World :=
  World.run (create call.config) (w.noting call)

theorem run_buildBackend_refused {e : Error} (refused : r.factoryFor role c = .error e) (w : World) :
    World.run (r.buildBackend role c) w = (.finished (.error e), w) := by
  rw [buildBackend, refused]
  rfl

/-- What is left to do once the result of a factory has been checked. -/
def conclude (accepted : Except Error Backend) : Program (Except Error Backend) :=
  match accepted with
  | .error e => return .error e
  | .ok backend => do
    Program.log .debug .registry "backend created"
    return .ok backend

theorem run_conclude (accepted : Except Error Backend) (w : World) :
    ∃ entries, World.run (conclude accepted) w = (.finished accepted, w.relog entries) := by
  cases accepted with
  | error e => exact ⟨w.logged, rfl⟩
  | ok b =>
      obtain ⟨entries, kept⟩ :=
        w.keep_eq { level := .debug, spans := [], source := .registry, message := "backend created" }
      exact ⟨entries, congrArg (Prod.mk _) kept⟩

theorem buildBackend_eq {n : Nat} {create : Factory} (found : r.factoryFor role c = .ok (n, create)) :
    r.buildBackend role c = Program.within (buildSpan role c.module) (.ask (.construct n role c.config) fun _ =>
      create c.config >>= fun built => conclude (accept role c.module built)) := by
  rw [buildBackend, found]
  rfl

/-- Building a backend logs more than the call of its factory, and does nothing else. -/
theorem run_buildBackend {n : Nat} {create : Factory} (found : r.factoryFor role c = .ok (n, create)) (w : World) :
    ∃ entries, World.run (r.buildBackend role c) w =
      ((called create ⟨n, role, c.config⟩ w).1.map (accept role c.module),
        (called create ⟨n, role, c.config⟩ w).2.relog entries) := by
  obtain ⟨after, ran⟩ := World.run_within (buildSpan role c.module) (.ask (.construct n role c.config) fun _ =>
      create c.config >>= fun built => conclude (accept role c.module built)) w w.logged
  rw [buildBackend_eq found, ← w.relog_logged, ran, w.relog_logged]
  -- The question notes the call; the rest runs in the world after it.
  change ∃ entries, ((World.run _ (w.noting ⟨n, role, c.config⟩)).1,
    (World.run _ (w.noting ⟨n, role, c.config⟩)).2.relog after) = _
  rw [World.run_bind]
  change ∃ entries, ((World.andThen _ (called create ⟨n, role, c.config⟩ w)).1,
    (World.andThen _ (called create ⟨n, role, c.config⟩ w)).2.relog after) = _
  rcases called create ⟨n, role, c.config⟩ w with ⟨built | _ | _, left⟩
  · obtain ⟨entries, concluded⟩ := run_conclude (accept role c.module built) left
    simp only [World.andThen_finished, concluded]
    exact ⟨after, rfl⟩
  · exact ⟨after, rfl⟩
  · exact ⟨after, rfl⟩

theorem accept_eq_ok_iff {id : String} {built : Except Report Backend} {b : Backend} :
    accept role id built = .ok b ↔ built = .ok b ∧ b.role = role := by
  cases built with
  | error report => simp [accept]
  | ok b' =>
      simp only [accept, Except.ok.injEq]
      split <;> grind

/-- The report that a result of a factory leads to, if it is not a backend for the role. -/
inductive Refuses (role : Role) : Except Report Backend → Report → Prop where
  | failed (report : Report) : Refuses role (.error report) report
  | otherRole {b : Backend} (different : b.role ≠ role) :
      Refuses role (.ok b) (.plain ("factory produced a " ++ b.role.name ++ " backend"))

theorem accept_eq_error_iff {id : String} {built : Except Report Backend} {e : Error} :
    accept role id built = .error e ↔ ∃ report, Refuses role built report ∧ e = .configuration role id report := by
  constructor
  · intro refused
    cases built with
    | error report =>
        cases refused
        exact ⟨report, .failed report, rfl⟩
    | ok b =>
        by_cases same : b.role = role
        · simp [accept, same] at refused
        · simp only [accept, same, if_false, Except.error.injEq] at refused
          exact ⟨_, .otherRole same, refused.symm⟩
  · intro ⟨report, refuses, same⟩
    cases refuses with
    | failed => rw [accept, same]
    | otherRole different => simp [accept, different, same]

/-- A backend is built by one call of a factory. -/
structure BuiltBy (r : Registry) (role : Role) (c : BackendConfig) (n : Nat) (create : Factory) : Prop where
  /-- But for the log, the world is left as the call leaves it. -/
  world : ∀ w, ∃ entries,
    (World.run (r.buildBackend role c) w).2 = (called create ⟨n, role, c.config⟩ w).2.relog entries
  once : (create c.config).BuildsNothing → ∀ w,
    (World.run (r.buildBackend role c) w).2.constructed = ⟨n, role, c.config⟩ :: w.constructed
  built : ∀ w b, (World.run (r.buildBackend role c) w).1 = .finished (.ok b) ↔
    (called create ⟨n, role, c.config⟩ w).1 = .finished (.ok b) ∧ b.role = role
  refused : ∀ w e, (World.run (r.buildBackend role c) w).1 = .finished (.error e) ↔
    ∃ result report, (called create ⟨n, role, c.config⟩ w).1 = .finished result ∧ Refuses role result report ∧
      e = .configuration role c.module report

theorem builtBy_of_factoryFor {n : Nat} {create : Factory} (found : r.factoryFor role c = .ok (n, create)) :
    r.BuiltBy role c n create where
  world w := by
    obtain ⟨entries, ran⟩ := run_buildBackend found w
    exact ⟨entries, congrArg Prod.snd ran⟩
  once nothing w := by
    obtain ⟨entries, ran⟩ := run_buildBackend found w
    rw [ran, World.constructed_relog, called, World.run_constructed nothing, World.constructed_noting]
  built w b := by
    obtain ⟨entries, ran⟩ := run_buildBackend found w
    rw [ran, Ending.map_eq_finished_iff]
    simp [accept_eq_ok_iff]
  refused w e := by
    obtain ⟨entries, ran⟩ := run_buildBackend found w
    rw [ran, Ending.map_eq_finished_iff]
    simp [accept_eq_error_iff]

/-- The factories of the registry call no factories themselves. -/
def Plain (r : Registry) : Prop :=
  ∀ p ∈ r.providers, ∀ role create, p.factory role = .ok create → ∀ v, (create v).BuildsNothing

/-- The call that building a backend comes down to. -/
def call? (r : Registry) (role : Role) (c : BackendConfig) : Option Construction :=
  (r.factoryFor role c).toOption.map fun found => ⟨found.1, role, c.config⟩

theorem constructed_buildBackend (plain : r.Plain) (role : Role) (c : BackendConfig) (w : World) :
    (World.run (r.buildBackend role c) w).2.constructed = (r.call? role c).toList ++ w.constructed := by
  unfold call?
  cases found : r.factoryFor role c with
  | error e => simp [run_buildBackend_refused found, Except.toOption]
  | ok entry =>
      obtain ⟨p, member, made⟩ := factory_of_factoryFor found
      simp [(builtBy_of_factoryFor found).once (plain p member role _ made c.config) w, Except.toOption]

/-- Build one backend after the other. -/
def buildBackends (r : Registry) (calls : List (Role × BackendConfig)) : Program (List (Except Error Backend)) :=
  calls.mapM fun call => r.buildBackend call.1 call.2

theorem constructed_buildBackends (plain : r.Plain) {calls : List (Role × BackendConfig)} {w w' : World}
    {results : List (Except Error Backend)} (ran : World.run (r.buildBackends calls) w = (.finished results, w')) :
    w'.constructed = (calls.filterMap fun call => r.call? call.1 call.2).reverse ++ w.constructed := by
  induction calls generalizing w results with
  | nil =>
      cases ran
      rfl
  | cons call rest ih =>
      have counted := constructed_buildBackend plain call.1 call.2 w
      rw [buildBackends, List.mapM_cons] at ran
      obtain ⟨result, middle, first, ran⟩ := World.run_bind_eq_finished ran
      obtain ⟨others, left, more, ran⟩ := World.run_bind_eq_finished ran
      cases ran
      rw [first] at counted
      rw [ih more, counted]
      cases found : r.call? call.1 call.2 <;> simp [found]

/-- A backend is built by one call of the factory of its module, with the configured value, if the
configuration is valid and there is such a factory; else nothing happens at all. -/
theorem buildBackend_calls (r : Registry) (role : Role) (c : BackendConfig) :
    (∀ e, r.validate role c = .error e → ∀ w, World.run (r.buildBackend role c) w = (.finished (.error e), w)) ∧
    (r.validate role c = .ok () → ∃ n p, r.resolve role c.module = .ok (n, p) ∧
      (∀ e, p.factory role = .error e → ∀ w, World.run (r.buildBackend role c) w = (.finished (.error e), w)) ∧
      ∀ create, p.factory role = .ok create → r.BuiltBy role c n create) ∧
    (∀ n p schema fault, r.resolve role c.module = .ok (n, p) → p.schema role = .ok schema →
      schema.validate c.config = .error fault →
        r.validate role c = .error (.configuration role c.module (.plain fault.message))) ∧
    (∀ report, (Error.configuration role c.module report).message =
      "invalid configuration for " ++ role.name ++ " backend `" ++ c.module ++ "`: " ++
        String.intercalate ": " report.chain) ∧
    (r.Plain → ∀ calls w results w', World.run (r.buildBackends calls) w = (.finished results, w') →
      w'.constructed = (calls.filterMap fun call => r.call? call.1 call.2).reverse ++ w.constructed) := by
  refine ⟨?_, ?_, ?_, fun report => rfl, ?_⟩
  · intro e invalid w
    exact run_buildBackend_refused (factoryFor_of_invalid invalid) w
  · intro valid
    obtain ⟨n, p, found, offered⟩ := factoryFor_of_valid valid
    refine ⟨n, p, found, ?_, ?_⟩
    · intro e none w
      rw [none] at offered
      exact run_buildBackend_refused offered w
    · intro create made
      rw [made] at offered
      exact builtBy_of_factoryFor offered
  · intro n p schema fault found described rejected
    exact validate_of_rejected found described rejected
  · intro plain calls w results w' ran
    exact constructed_buildBackends plain ran

/-- A module that makes provers only, and only when it is asked to fail it says why it does not. -/
def proverProvider : Provider :=
  { id := "mock", roles := [.prover, .signer], description := ""
    schema := fun _ =>
      .ok [{ name := "fail", kind := .boolean, description := "", presence := .optional (.bool false) }]
    factory := fun _ => .ok fun v => pure (match v with
      | .object _ => .error ⟨"no prover", ["endpoint unreachable"]⟩
      | _ => .ok { role := .prover }) }

/-- The registry of that module alone. -/
def proverRegistry : Registry :=
  ⟨[proverProvider], [((.prover, "mock"), 0), ((.signer, "mock"), 0)]⟩

/-- The schema, the factory and the role can each be in the way; two backends take two calls. -/
theorem buildBackend_calls_mock :
    let r := proverRegistry
    ofProviders [proverProvider] = .ok r ∧
    (∀ w, World.run (r.buildBackend .prover ⟨"mock", .object [("fail", .string "yes")]⟩) w =
      (.finished (.error (.configuration .prover "mock" (.plain "field `fail` must be boolean, found string"))), w)) ∧
    (∃ e, (World.run (r.buildBackend .prover ⟨"mock", .object [("fail", .bool true)]⟩) (.holding ⟨[], []⟩)).1 =
        .finished (.error e) ∧
      e.message = "invalid configuration for prover backend `mock`: no prover: endpoint unreachable") ∧
    (∃ e, (World.run (r.buildBackend .signer ⟨"mock", .null⟩) (.holding ⟨[], []⟩)).1 = .finished (.error e) ∧
      e.message = "invalid configuration for signer backend `mock`: factory produced a prover backend") ∧
    ∃ results w',
      World.run (r.buildBackends [(.prover, ⟨"mock", .null⟩), (.prover, ⟨"mock", .null⟩)]) (.holding ⟨[], []⟩) =
        (.finished results, w') ∧
      w'.constructed = [⟨0, .prover, .null⟩, ⟨0, .prover, .null⟩] := by
  intro r
  refine ⟨rfl, ?_, ?_, ?_, ?_⟩
  · intro w
    exact (buildBackend_calls r _ _).1 _ rfl w
  · obtain ⟨n, p, found, -, calls⟩ := (buildBackend_calls r .prover ⟨"mock", .object [("fail", .bool true)]⟩).2.1 rfl
    cases found
    exact ⟨_, ((calls _ rfl).refused _ _).mpr ⟨_, _, rfl, .failed _, rfl⟩, rfl⟩
  · obtain ⟨n, p, found, -, calls⟩ := (buildBackend_calls r .signer ⟨"mock", .null⟩).2.1 rfl
    cases found
    exact ⟨_, ((calls _ rfl).refused _ _).mpr ⟨_, _, rfl, .otherRole (by decide), rfl⟩, rfl⟩
  · have plain : r.Plain := by
      intro p member role create made v
      cases List.mem_singleton.mp member
      cases made
      trivial
    have counted := (buildBackend_calls r .prover ⟨"mock", .null⟩).2.2.2.2 plain
      [(.prover, ⟨"mock", .null⟩), (.prover, ⟨"mock", .null⟩)] (.holding ⟨[], []⟩) _ _ rfl
    exact ⟨_, _, rfl, counted⟩

end Registry

end ChainRelay
