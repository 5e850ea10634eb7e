import ChainRelay.Proofs.Command.Options
import ChainRelay.Proofs.Config.Defaults
import ChainRelay.Proofs.Effects.Steps
import ChainRelay.Proofs.GlobalOptions
import ChainRelay.Proofs.Registration.Order
import ChainRelay.Proofs.Wallet.Disclosure

/-! # Keys on the command line and in settings

A phrase and a path reach the derivation in two ways: as options of a command, which prints the address, and as the
fields of a configuration, from which the registry builds a signer. Both ways end alike, and blank characters around the
phrase make no difference to either.
-/

namespace ChainRelay

open Args

namespace Hd

open Json (Value)

/-! ## The two ways -/

/-- The command line that asks for the address of a phrase and perhaps a path. -/
def addressLine (program : RawText) (mnemonic : String) (path? : Option String) : List RawText :=
  program :: (["hd", "address", "--mnemonic", mnemonic] ++ path?.toList.flatMap (["--path", ·])).map RawText.ofString

/-- The configuration of a phrase and perhaps a path. -/
def keyValue (mnemonic : String) (path? : Option String) : Value :=
  .object (("mnemonic", .string mnemonic) :: path?.toList.map fun path => ("path", .string path))

/-- The settings that the command line makes. -/
def settings (env : Environment) (mnemonic : String) (path? : Option String) : List Setting :=
  ⟨mnemonicOption env, "mnemonic", mnemonic⟩ :: path?.toList.map fun path => ⟨pathOption, "path", path⟩

theorem lineOf_settings (program : RawText) (env : Environment) (mnemonic : String) (path? : Option String) :
    Tree.lineOf program [moduleId, "address"] (settings env mnemonic path?) = addressLine program mnemonic path? := by
  cases path? <;> rfl

theorem ofValue_keyValue (mnemonic : String) (path? : Option String) :
    Config.ofValue (keyValue mnemonic path?) = .ok ⟨mnemonic, path?.getD defaultPath⟩ := by
  cases path? with
  | none => exact Config.ofValue_mnemonic mnemonic
  | some path => exact Config.ofValue_toValue ⟨mnemonic, path⟩

/-- The text does not look like an option, so it can be the value of one. -/
abbrev Plain (s : String) : Prop :=
  s.toList.head? ≠ some '-'

theorem plain_around {before after s : String} (front : ∀ c ∈ before.toList, isBlank c)
    (back : ∀ c ∈ after.toList, isBlank c) (plain : Plain s) : Plain (before ++ s ++ after) := by
  have inked : ¬isBlank '-' := by decide
  intro dashed
  simp only [String.toList_append, List.head?_append, Option.or_eq_some_iff] at dashed
  rcases dashed with (first | ⟨-, first⟩) | ⟨-, first⟩
  · exact inked (front _ (List.mem_of_head? first))
  · exact plain first
  · exact inked (back _ (List.mem_of_head? first))

/-! ## The derivation -/

/-- Derive the key of a configuration and print its address. -/
def printKey (c : Config) : Attempt Unit := do
  let s ← Attempt.ofProgram id (deriveSigner c)
  Program.printLine s.address.checksumText

theorem printAddress_eq {ctx : Context} {c : Config} (mnemonic : ctx.matched.text? "mnemonic" = some c.mnemonic)
    (path : (ctx.matched.text? "path").getD defaultPath = c.path) : printAddress ctx = printKey c := by
  unfold printAddress
  rw [mnemonic, path]
  rfl

/-- The derivation of a key is all that can fail. -/
theorem run_printKey_error {c : Config} {report : Report} (refused : Signer.ofConfig c = .error report) (w : World) :
    ∃ left, World.run (printKey c).run w = (.finished (.error report), left) ∧ left.printed = w.printed := by
  obtain ⟨entries, derived⟩ := run_deriveSigner c w
  rw [refused] at derived
  exact ⟨w.relog entries, Attempt.run_bind_error (Attempt.run_ofProgram_error derived), rfl⟩

theorem run_printKey_ok {c : Config} {s : Signer} (made : Signer.ofConfig c = .ok s) (w : World) :
    ∃ left, World.run (printKey c).run w = (.finished (.ok ()), left) ∧
      left.printed = (s.address.checksumText ++ "\n") :: w.printed := by
  obtain ⟨entries, derived⟩ := run_deriveSigner c w
  rw [made] at derived
  refine ⟨_, Attempt.run_bind_ok (Attempt.run_ofProgram_ok derived), ?_⟩
  exact World.printed_write [s.address.checksumText ++ "\n"] (w.relog entries)

theorem Signer.ofConfig_congr {c c' : Config} (path : c.path = c'.path) (phrase : c.phrase = c'.phrase) :
    ofConfig c = ofConfig c' := by
  have checks : ofChecks c = ofChecks c' := by
    obtain ⟨mnemonic, _⟩ := c
    cases path
    rfl
  rw [ofConfig, ofConfig, checks, path, phrase]

theorem printKey_congr {c c' : Config} (path : c.path = c'.path) (phrase : c.phrase = c'.phrase) :
    printKey c = printKey c' := by
  unfold printKey deriveSigner
  rw [Signer.ofConfig_congr path phrase, path]

/-! ## Both ways end alike -/

/-- The command prints the address of the backend that is built, or both fail with the report of the derivation. -/
inductive Agree (c : Config) (w : World) :
    Ending (Except Error Unit) × World → Ending (Except Error Backend) → Prop where
  | derived {s : Signer} {b : Backend} {key : SignerBackend} {left : World} (made : Signer.ofConfig c = .ok s)
      (built : b.signer = some key) (printed : left.printed = (key.address ++ "\n") :: w.printed) :
      Agree c w (.finished (.ok ()), left) (.finished (.ok b))
  | refused {report : Report} {left : World} (refused : Signer.ofConfig c = .error report)
      (printed : left.printed = w.printed) :
      Agree c w (.finished (.error (.handler report)), left)
        (.finished (.error (.configuration .signer moduleId report)))

theorem Agree.of_error {c : Config} {w : World} {ran : Ending (Except Error Unit) × World}
    {built : Ending (Except Error Backend)} (agree : Agree c w ran built) {report : Report}
    (wrong : Signer.ofConfig c = .error report) :
    ran.1 = .finished (.error (.handler report)) ∧ ran.2.printed = w.printed ∧
      built = .finished (.error (.configuration .signer moduleId report)) := by
  cases agree with
  | derived made => cases wrong.symm.trans made
  | refused same printed =>
      cases wrong.symm.trans same
      exact ⟨rfl, printed, rfl⟩

theorem Agree.of_ok {c : Config} {w : World} {ran : Ending (Except Error Unit) × World}
    {built : Ending (Except Error Backend)} (agree : Agree c w ran built) {s : Signer}
    (made : Signer.ofConfig c = .ok s) :
    ran.1 = .finished (.ok ()) ∧ ∃ b key, built = .finished (.ok b) ∧ b.signer = some key ∧
      ran.2.printed = (key.address ++ "\n") :: w.printed := by
  cases agree with
  | derived _ key printed => exact ⟨rfl, _, _, rfl, key, printed⟩
  | refused wrong => cases made.symm.trans wrong

theorem sound_settings {env : Environment} {mnemonic : String} {path? : Option String} (plain : Plain mnemonic)
    (plainPath : ∀ path ∈ path?, Plain path) : ∀ o ∈ settings env mnemonic path?, o.Sound := by
  refine List.forall_mem_cons.mpr ⟨?_, List.forall_mem_map.mpr fun path member => ?_⟩
  · exact ⟨⟨⟨rfl, rfl⟩, by simp, rfl, by simp [checkValue, mnemonicOption]⟩, by simp, plain⟩
  · exact ⟨⟨⟨rfl, rfl⟩, by simp, rfl, by simp [checkValue, pathOption]⟩, by simp,
      plainPath path (Option.mem_toList.mp member)⟩

/-- The entry to the log that is made before the command runs. -/
def dispatched : LogEntry :=
  App.dispatchEntry { path := [moduleId, "address"], matched := [], handler := printAddress }

section Composed

variable {name : String} {about version : Option String} {env : Environment} {modules : List Module} {app : App}
  (done : App.build name about version env modules = .ok app) (inside : hdModule ∈ modules)

include inside in
theorem mem_offers {f : Fragment Handler} (member : f ∈ fragments env) : (moduleId, f) ∈ App.offers env modules :=
  List.mem_append_right _ (List.mem_flatMap.mpr ⟨hdModule, inside, List.mem_map_of_mem member⟩)

include done inside

/-- The group above the command asks for nothing. -/
theorem args_above {y : Offer Handler} (member : y ∈ App.offers env modules)
    (front : y.path <+: [moduleId, "address"]) (shorter : y.path ≠ [moduleId, "address"]) : y.2.args = [] := by
  have grown := App.build_grown done
  have here : y.path = [moduleId] := by
    rcases List.prefix_cons_iff.mp front with none | ⟨p, path, front⟩
    · exact absurd none (grown.suits y member).1.1
    · rcases List.prefix_cons_iff.mp front with rfl | ⟨q, rfl, last⟩
      · exact path
      · rw [List.prefix_nil.mp last] at path
        exact absurd path shorter
  have group := (grown.holds.claims [moduleId] _).mpr ⟨_, mem_offers inside List.mem_cons_self, rfl, rfl⟩
  have claimed := (grown.holds.claims [moduleId] y.claim).mpr ⟨y, member, here, rfl⟩
  exact congrArg Claim.args (Option.some.inj (claimed.symm.trans group))

theorem builds_keyValue (mnemonic : String) (path? : Option String) :
    Builds app.registry moduleId (keyValue mnemonic path?) ⟨mnemonic, path?.getD defaultPath⟩ := by
  have registered : Registry.ofProviders (modules.map (·.provider)) = .ok app.registry :=
    (App.build_eq_ok_iff.mp done).1
  obtain ⟨indexed, held⟩ := Registry.ofProviders_indexed registered
  have located : app.registry.module? .signer moduleId = some hdModule.provider :=
    (Registry.module?_eq_some_iff indexed).mpr ⟨held ▸ List.mem_map_of_mem inside, rfl, List.mem_cons_self⟩
  obtain ⟨⟨n, p⟩, resolved, same⟩ := Option.map_eq_some_iff.mp located
  cases same
  have found := toOption_eq_some_iff.mp resolved
  refine ⟨⟨n, found⟩, ?_, ofValue_keyValue mnemonic path?⟩
  have fits : schema.validate (keyValue mnemonic path?) = .ok () := by cases path? <;> rfl
  simp [Registry.validate, found, fits, bind, Except.bind, pure, Except.pure]

variable (admits : App.Admits env) {mnemonic : String} {path? : Option String} (plain : Plain mnemonic)
  (plainPath : ∀ path ∈ path?, Plain path)
include admits plain plainPath

theorem equips_settings {f : Fragment Handler} (here : f.path = [moduleId, "address"])
    (args : f.args = [mnemonicOption env, pathOption]) :
    app.tree.sealed.Equips (App.offers env modules) (moduleId, f) (settings env mnemonic path?) where
  sound := sound_settings plain plainPath
  among := by
    rw [args]
    exact List.forall_mem_cons.mpr ⟨List.mem_cons_self, List.forall_mem_map.mpr fun path _ => by simp⟩
  distinct := by cases path? <;> simp [settings, mnemonicOption, pathOption]
  apart := by
    rw [args]
    simp [ArgSpec.Apart, mnemonicOption, pathOption]
  standard := by
    rw [args]
    simp [ArgSpec.Apart, mnemonicOption, pathOption, helpOption, versionOption]
  modest := by
    rw [args]
    refine List.forall_mem_cons.mpr ⟨⟨⟨rfl, rfl, rfl⟩, rfl⟩, List.forall_mem_singleton.mpr ⟨⟨rfl, rfl, rfl⟩, rfl⟩⟩
  options := by
    obtain ⟨-, -, globals, -⟩ := App.build_holds done
    intro g member
    exact ⟨admits.omissible g (globals ▸ member), App.plain_globalOptions env g (globals ▸ member)⟩
  above := by
    intro y member front shorter a given
    change y.path <+: f.path at front
    change y.path ≠ f.path at shorter
    rw [here] at front shorter
    rw [args_above done inside member front shorter] at given
    cases given
  left := by
    rw [args]
    refine List.forall_mem_cons.mpr ⟨.inl ⟨_, List.mem_cons_self, rfl⟩, List.forall_mem_singleton.mpr ?_⟩
    cases path? with
    | none =>
        refine .inr (omissible_of_optional rfl (fun v value => ?_) fun v value => ?_)
        · cases value
        · cases value
          exact ⟨_, rfl⟩
    | some path => exact .inl ⟨_, List.mem_cons_of_mem _ List.mem_cons_self, rfl⟩

variable (program : RawText)

/-- The command gets the phrase and the path. -/
theorem parse_addressLine : ∃ matched,
    (app.tree.parse (addressLine program mnemonic path?)).1 =
        .ok (.invocation { path := [moduleId, "address"], matched, handler := printAddress }) ∧
      matched.text? "mnemonic" = some mnemonic ∧
      (matched.text? "path").getD defaultPath = path?.getD defaultPath := by
  obtain ⟨f, member, here, args, runs⟩ : ∃ f ∈ fragments env, f.path = [moduleId, "address"] ∧
      f.args = [mnemonicOption env, pathOption] ∧ f.handler = some printAddress :=
    ⟨_, List.mem_cons_of_mem _ List.mem_cons_self, rfl, rfl, rfl⟩
  obtain ⟨matched, routed, reflect⟩ := (App.build_grown done).sealed.route_settings
    (equips_settings done inside admits plain plainPath here args) (mem_offers inside member) runs program
  rw [Offer.path, here, lineOf_settings] at routed
  have text {id value : String} {source : Source}
      (found : matched.get? id = some ⟨id, .text, source, .values [RawText.ofString value]⟩) :
      matched.text? id = some value := by
    simp only [Matches.text?, found, RawText.toString?_ofString]
  refine ⟨matched, routed, text (reflect.given _ List.mem_cons_self), ?_⟩
  cases path? with
  | none =>
      have default : matched.text? "path" = some defaultPath := text (reflect.default pathOption (by simp [args])
        (by simp [settings, mnemonicOption, pathOption]) rfl _ rfl _ rfl)
      rw [default]
      rfl
  | some path =>
      have given : matched.text? "path" = some path :=
        text (reflect.given _ (List.mem_cons_of_mem _ List.mem_cons_self))
      rw [given]

theorem run_addressLine (w : World) : World.run (app.run (addressLine program mnemonic path?)) w =
    let ran := World.run (printKey ⟨mnemonic, path?.getD defaultPath⟩).run (w.keep dispatched)
    (ran.1.map App.outcome, ran.2) := by
  obtain ⟨matched, selected, given, path⟩ := parse_addressLine done inside admits plain plainPath program
  have prints : printAddress { matched, registry := app.registry } = printKey ⟨mnemonic, path?.getD defaultPath⟩ :=
    printAddress_eq given path
  rw [App.run_invocation selected, App.run_runInvocation, ← prints]
  rfl

theorem agree_addressLine (w w' : World) : Agree ⟨mnemonic, path?.getD defaultPath⟩ w
    (World.run (app.run (addressLine program mnemonic path?)) w)
    (World.run (app.registry.buildBackend .signer ⟨moduleId, keyValue mnemonic path?⟩) w').1 := by
  have builds := builds_keyValue done inside mnemonic path?
  rw [run_addressLine done inside admits plain plainPath program, builds.ending w']
  have silent : (w.keep dispatched).printed = w.printed := World.printed_keep w dispatched
  cases derived : Signer.ofConfig ⟨mnemonic, path?.getD defaultPath⟩ with
  | ok s =>
      obtain ⟨left, ran, printed⟩ := run_printKey_ok derived (w.keep dispatched)
      rw [ran]
      exact .derived derived rfl (printed.trans (congrArg _ silent))
  | error report =>
      obtain ⟨left, ran, printed⟩ := run_printKey_error derived (w.keep dispatched)
      rw [ran]
      exact .refused derived (printed.trans silent)

end Composed

/-- The command and the registry derive the same key from a phrase and a path, and from a phrase alone. Blank characters
around the phrase change neither what the command does nor what the registry returns. -/
theorem address_agrees {name : String} {about version : Option String} {env : Environment} {modules : List Module}
    {app : App} (done : App.build name about version env modules = .ok app) (inside : hdModule ∈ modules)
    (admits : App.Admits env) {mnemonic : String} {path? : Option String} (plain : Plain mnemonic)
    (plainPath : ∀ path ∈ path?, Plain path) (program : RawText) :
    (∀ w w', Agree ⟨mnemonic, path?.getD defaultPath⟩ w
      (World.run (app.run (addressLine program mnemonic path?)) w)
      (World.run (app.registry.buildBackend .signer ⟨moduleId, keyValue mnemonic path?⟩) w').1) ∧
    ∀ before after, (∀ c ∈ before.toList, isBlank c) → (∀ c ∈ after.toList, isBlank c) →
      (∀ w, World.run (app.run (addressLine program (before ++ mnemonic ++ after) path?)) w =
        World.run (app.run (addressLine program mnemonic path?)) w) ∧
      ∀ w, (World.run (app.registry.buildBackend .signer
          ⟨moduleId, keyValue (before ++ mnemonic ++ after) path?⟩) w).1 =
        (World.run (app.registry.buildBackend .signer ⟨moduleId, keyValue mnemonic path?⟩) w).1 := by
  refine ⟨agree_addressLine done inside admits plain plainPath program, ?_⟩
  intro before after front back
  let c : Config := ⟨mnemonic, path?.getD defaultPath⟩
  let c' : Config := { c with mnemonic := before ++ mnemonic ++ after }
  have phrase : c'.phrase = c.phrase := trimBlanks_around front back mnemonic
  have prints : printKey c' = printKey c := printKey_congr rfl phrase
  have made : Signer.ofConfig c' = Signer.ofConfig c := Signer.ofConfig_congr rfl phrase
  constructor
  · intro w
    rw [run_addressLine done inside admits (plain_around front back plain) plainPath program,
      run_addressLine done inside admits plain plainPath program, prints]
  · intro w
    rw [(builds_keyValue done inside _ path?).ending, (builds_keyValue done inside _ path?).ending, made]

/-- A text that is no phrase is refused alike, also between blank characters. Whatever key a phrase alone leads to, the
command prints the address of the backend that is built. -/
theorem address_agrees_phrases :
    let report : Report := ⟨"invalid mnemonic", ["the word `7up` is invalid"]⟩
    let phrase := "legal winner thank year wave sausage worth useful legal winner thank yellow"
    let program := RawText.ofString "relayer"
    ∃ app, App.build "relayer" none none (fun _ => none) [hdModule] = .ok app ∧ ∀ w w',
      let wrong := World.run (app.run (addressLine program " 7up\n" (some "m"))) w
      let right := World.run (app.run (addressLine program phrase none)) w
      (wrong.1 = .finished (.error (.handler report)) ∧ wrong.2.printed = w.printed ∧
        (World.run (app.registry.buildBackend .signer ⟨moduleId, keyValue "7up" (some "m")⟩) w').1 =
          .finished (.error (.configuration .signer moduleId report))) ∧
      ∀ s, Signer.ofConfig ⟨phrase, defaultPath⟩ = .ok s → right.1 = .finished (.ok ()) ∧ ∃ b key,
        (World.run (app.registry.buildBackend .signer ⟨moduleId, keyValue phrase none⟩) w').1 = .finished (.ok b) ∧
          b.signer = some key ∧ right.2.printed = (key.address ++ "\n") :: w.printed := by
  intro report phrase program
  have admits : App.Admits fun _ => none := by
    intro g member v value
    simp only [App.globalOptions, List.mem_cons, List.not_mem_nil, or_false] at member
    rcases member with rfl | rfl | rfl <;> cases value
  have split : "7up".splitOn " " = ["7up"] := by simp +decide [String.splitOn, String.splitOnAux]
  have wrong : Signer.ofConfig ⟨"7up", "m"⟩ = .error report := by
    rw [Config.ofConfig_of_refusedAt (refusedAt_first (by decide) split (by decide)), reportAt_first (by decide) split]
    rfl
  obtain ⟨app, done⟩ : ∃ app, App.build "relayer" none none (fun _ => none) [hdModule] = .ok app := ⟨_, rfl⟩
  refine ⟨app, done, fun w w' => ⟨?_, ?_⟩⟩
  · have plain : Plain "7up" := by decide
    have plainPath : ∀ path ∈ some "m", Plain path := by simp
    have agrees := address_agrees done List.mem_cons_self admits plain plainPath program
    have same : World.run (app.run (addressLine program " 7up\n" (some "m"))) w = _ :=
      (agrees.2 " " "\n" (by simp [isBlank]) (by simp [isBlank])).1 w
    rw [same]
    exact (agrees.1 w w').of_error wrong
  · intro s made
    have plain : Plain phrase := by decide
    have noPath : ∀ path ∈ (none : Option String), Plain path := by simp
    have agrees := address_agrees done List.mem_cons_self admits plain noPath program
    exact (agrees.1 w w').of_ok made

end Hd

end ChainRelay
