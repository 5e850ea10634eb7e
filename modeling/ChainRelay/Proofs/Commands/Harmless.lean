import ChainRelay.Commands.BuiltIn
import ChainRelay.Proofs.Config.Roundtrip
import ChainRelay.Proofs.Effects.Harmless
import ChainRelay.Proofs.Registration
import ChainRelay.Shipped

/-! # Commands that change no files

All commands but `config init` and `chains add-dir` are harmless, as long as the factories of the
registry are, and those of the shipped modules are.
-/

namespace ChainRelay

open Program (harmless_question harmless_log harmless_print harmless_post)

section Loading

variable {waits : Prop}

theorem harmless_home (ctx : Context) : ctx.home.Harmless waits fun _ => True := by
  unfold Context.home
  split
  · trivial
  · exact (harmless_question (q := .userHome) trivial).bind fun _ _ => trivial

theorem harmless_settingsPath (ctx : Context) : ctx.settingsPath.Harmless waits fun _ => True :=
  (harmless_home ctx).bind fun _ _ => trivial

theorem harmless_loadSettings (ctx : Context) :
    Attempt.Harmless waits (fun _ => True) ctx.loadSettings := by
  refine (Attempt.harmless_lift (harmless_settingsPath ctx)).bind fun file _ => Attempt.harmless_ofProgram ?_
  refine (harmless_question (q := .readFile file) trivial).bind fun r _ => ?_
  cases r with
  | ok content => exact fun _ _ => trivial
  | error fault => exact fun _ _ => trivial

/-- A definition is read with its configurations in order. -/
theorem harmless_loadChain (file : FilePath) : (loadChain file).Harmless waits
    fun r => ∀ c, r = .ok c → c.Each (·.config.Ascending) := by
  refine (harmless_question (q := .readFile file) trivial).bind fun r _ => ?_
  cases r with
  | error fault => exact fun c same => nomatch same
  | ok content =>
      intro c same
      unfold ChainConfig.ofContent at same
      split at same
      · cases same
      · rename_i decoded
        cases same
        exact ChainConfig.decode_ascending decoded

end Loading

/-! ## Backends -/

/-- Whatever the chain is asked, no file changes. -/
def Backend.Harmless (b : Backend) : Prop :=
  ∀ c, b.chain = some c → c.latestHeight.Harmless True fun _ => True

/-- The backends that come out of a factory are harmless. -/
def HarmlessResult (r : Except ε Backend) : Prop :=
  ∀ b, r = .ok b → b.Harmless

/-- No file changes when a module of the registry builds a backend, nor when that is used. -/
def Registry.Harmless (r : Registry) : Prop :=
  ∀ p ∈ r.providers, ∀ role create, p.factory role = .ok create → ∀ v, (create v).Harmless True HarmlessResult

namespace Registry

variable {r : Registry}

theorem factory_of_factoryFor {role : Role} {c : BackendConfig} {n : Nat} {create : Factory}
    (found : r.factoryFor role c = .ok (n, create)) :
    ∃ p ∈ r.providers, p.factory role = .ok create := by
  unfold factoryFor at found
  cases checked : r.validate role c with
  | error e => simp [checked, bind, Except.bind] at found
  | ok =>
      cases resolved : r.resolve role c.module with
      | error e => simp [checked, resolved, bind, Except.bind] at found
      | ok entry =>
          obtain ⟨m, p⟩ := entry
          refine ⟨p, mem_of_resolve resolved, ?_⟩
          cases made : p.factory role with
          | error e => simp [checked, resolved, made, bind, Except.bind] at found
          | ok f =>
              simp [checked, resolved, made, bind, Except.bind, pure, Except.pure] at found
              rw [found.2]

theorem accept_ok {role : Role} {id : String} {built : Except Report Backend} {b : Backend}
    (accepted : accept role id built = .ok b) : built = .ok b := by
  unfold accept at accepted
  split at accepted
  · cases accepted
  · split at accepted
    · cases accepted
      rfl
    · cases accepted

theorem Harmless.buildBackend (harmless : r.Harmless) (role : Role) (c : BackendConfig) :
    (r.buildBackend role c).Harmless True HarmlessResult := by
  refine Program.Harmless.within ?_ _
  split
  · exact fun b same => nomatch same
  · rename_i position create found
    obtain ⟨p, member, made⟩ := factory_of_factoryFor found
    refine (harmless_question (q := .construct position role c.config) trivial).bind fun _ _ => ?_
    refine (harmless p member role create made c.config).bind fun built good => ?_
    split
    · exact fun b same => nomatch same
    · rename_i b accepted
      refine (harmless_log _ _ _).bind fun _ _ => ?_
      rintro b' ⟨⟩
      exact good b (accept_ok accepted)

theorem Harmless.buildChain (harmless : r.Harmless) (c : ChainConfig) :
    (r.buildChain c).Harmless True fun _ => True := by
  have any (role : Role) (c : BackendConfig) : (r.buildBackend role c).Harmless True fun _ => True :=
    (harmless.buildBackend role c).mono id fun _ _ => trivial
  -- The signer comes first, if there is one; chain and prover follow in either case.
  have follow (p : Program (Except Error Backend)) (harmless : p.Harmless True fun _ => True)
      (f : Except Error Backend → Program (Except Error ChainBackends))
      (refused : ∀ e, (f (.error e)).Harmless True fun _ => True)
      (built : ∀ b, (f (.ok b)).Harmless True fun _ => True) : (p >>= f).Harmless True fun _ => True := by
    refine harmless.bind fun r _ => ?_
    cases r with
    | error e => exact refused e
    | ok b => exact built b
  unfold Registry.buildChain
  dsimp only
  split
  · refine follow _ (any _ _) _ (fun _ => trivial) fun _ => ?_
    exact follow _ (any _ _) _ (fun _ => trivial) fun _ => trivial
  · exact follow _ (any _ _) _ (fun _ => trivial) fun _ => follow _ (any _ _) _ (fun _ => trivial) fun _ =>
      follow _ (any _ _) _ (fun _ => trivial) fun _ => trivial

end Registry

/-! ## The shipped modules -/

theorem harmless_printLine (text : String) {waits : Prop} :
    Attempt.Harmless waits (fun _ => True) (liftM (Program.printLine text)) :=
  Attempt.harmless_lift (harmless_print _)

namespace Ethereum

theorem harmless_call (url : Net.Url) (method : String) :
    (call url method).Harmless True fun _ => True := by
  refine Program.Harmless.within ?_ _
  refine (harmless_log _ _ _).bind fun _ _ => ?_
  split
  · exact (harmless_post _ _).bind fun _ _ => trivial
  · trivial

theorem Chain.harmless_latestHeight (c : Chain) : c.latestHeight.Harmless True fun _ => True := by
  have asked : (blockNumber c.url).Harmless True fun _ => True := by
    refine (harmless_call _ _).bind fun r _ => ?_
    cases r <;> trivial
  refine asked.bind fun r _ => ?_
  cases r <;> trivial

theorem harmless_factory (v : Json.Value) : (factory v).Harmless True HarmlessResult := by
  intro b same
  cases made : Chain.ofValue v with
  | error e =>
      rw [made] at same
      cases same
  | ok c =>
      rw [made] at same
      cases same
      rintro chain ⟨⟩
      exact c.harmless_latestHeight

end Ethereum

namespace Hd

theorem harmless_deriveSigner (c : Config) {waits : Prop} :
    (deriveSigner c).Harmless waits fun _ => True := by
  unfold deriveSigner
  split
  · trivial
  · exact (harmless_log _ _ _).bind fun _ _ => trivial

theorem harmless_factory (v : Json.Value) : (factory v).Harmless True HarmlessResult := by
  unfold factory
  split
  · exact fun b same => nomatch same
  · refine (harmless_deriveSigner _).bind fun signer _ => ?_
    cases signer with
    | error e => exact fun b same => nomatch same
    | ok signer =>
        rintro b ⟨⟩
        rintro chain ⟨⟩

end Hd

theorem Mock.harmless_factory (v : Json.Value) : (factory v).Harmless True HarmlessResult := by
  intro b same
  cases made : Config.ofValueOrNull v with
  | error e =>
      rw [made] at same
      cases same
  | ok c =>
      rw [made] at same
      cases same
      rintro chain ⟨⟩

theorem Registry.harmless_of_shipped {r : Registry}
    (shipped : r.providers = shippedModules.map (·.provider)) : r.Harmless := by
  intro p member role create made
  rw [shipped] at member
  simp only [shippedModules, List.map_cons, List.map_nil, List.mem_cons, List.not_mem_nil, or_false] at member
  rcases member with rfl | rfl | rfl <;> cases role <;> cases made
  · exact Ethereum.harmless_factory
  · exact Hd.harmless_factory
  · exact Mock.harmless_factory

/-! ## Commands -/

/-- Whatever it is given, the command changes no files. -/
def Handler.Harmless (handler : Handler) : Prop :=
  ∀ ctx : Context, ctx.registry.Harmless → Attempt.Harmless True (fun _ => True) (handler ctx)

namespace Commands

theorem harmless_listChains : Handler.Harmless listChains := by
  intro ctx _
  exact (harmless_loadSettings ctx).bind fun settings _ =>
    Attempt.harmless_forM fun c _ => harmless_printLine _

theorem harmless_showSettings : Handler.Harmless showSettings := by
  intro ctx _
  exact (harmless_loadSettings ctx).bind fun settings _ => harmless_printLine _

theorem harmless_checkChains : Handler.Harmless checkChains := by
  intro ctx registry
  refine (harmless_loadSettings ctx).bind fun settings _ => ?_
  refine Attempt.Harmless.bind (Attempt.harmless_ofExcept fun _ _ => trivial) fun chains _ => ?_
  induction chains with
  | nil => exact Attempt.harmless_pure trivial
  | cons c rest ih =>
      have built : Attempt.Harmless True (fun _ => True)
          (Attempt.ofProgram Error.report (ctx.registry.buildChain c)) :=
        Attempt.harmless_ofProgram ((registry.buildChain c).mono id fun _ _ _ _ => trivial)
      exact built.untilCancelled.bind fun _ _ => (harmless_printLine _).bind fun _ _ => ih

theorem harmless_listModules : Handler.Harmless listModules := by
  intro ctx _
  refine Attempt.harmless_forM fun role _ => Attempt.harmless_forM fun id _ => ?_
  exact Attempt.Harmless.bind (Attempt.harmless_ofExcept fun _ _ => trivial) fun found _ => harmless_printLine _

theorem harmless_showSchema : Handler.Harmless showSchema := by
  intro ctx _
  refine Attempt.Harmless.bind (Attempt.harmless_ofOption _ fun _ _ => trivial) fun role _ => ?_
  refine Attempt.Harmless.bind (Attempt.harmless_ofOption _ fun _ _ => trivial) fun id _ => ?_
  refine Attempt.Harmless.bind (Attempt.harmless_ofExcept fun _ _ => trivial) fun found _ => ?_
  refine Attempt.Harmless.bind (Attempt.harmless_ofExcept fun _ _ => trivial) fun schema _ => ?_
  exact Attempt.harmless_lift (harmless_print _)

end Commands

theorem Ethereum.harmless_printHeight : Handler.Harmless printHeight := by
  intro ctx registry
  refine Attempt.Harmless.bind (Attempt.harmless_ofOption _ fun _ _ => trivial) fun name _ => ?_
  have asked : Attempt.Harmless True (fun _ => True) (heightOfChain ctx name) := by
    refine (harmless_loadSettings ctx).bind fun settings _ => ?_
    refine Attempt.Harmless.bind (Attempt.harmless_ofExcept fun _ _ => trivial) fun c _ => ?_
    have built : Attempt.Harmless True Backend.Harmless
        (Attempt.ofProgram Error.report (ctx.registry.buildBackend .chain c.chain)) :=
      Attempt.harmless_ofProgram (registry.buildBackend .chain c.chain)
    refine Attempt.Harmless.bind built fun backend good => ?_
    refine Attempt.Harmless.bind (Attempt.harmless_ofOption _ good) fun chain height => ?_
    exact Attempt.harmless_ofProgram (height.mono id fun _ _ _ _ => trivial)
  refine asked.untilCancelled.bind fun height _ => ?_
  refine Attempt.Harmless.bind (Attempt.harmless_lift (harmless_log _ _ _)) fun _ _ => ?_
  exact harmless_printLine _

theorem Hd.harmless_printAddress : Handler.Harmless printAddress := by
  intro ctx _
  refine Attempt.Harmless.bind (Attempt.harmless_ofOption _ fun _ _ => trivial) fun mnemonic _ => ?_
  have derived (c : Config) : Attempt.Harmless True (fun _ => True) (Attempt.ofProgram id (deriveSigner c)) :=
    Attempt.harmless_ofProgram ((harmless_deriveSigner c).mono id fun _ _ _ _ => trivial)
  exact (derived _).bind fun signer _ => harmless_printLine _

end ChainRelay
