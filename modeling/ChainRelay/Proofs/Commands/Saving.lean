import ChainRelay.Proofs.Commands.Harmless
import ChainRelay.Proofs.Config.Schemas
import ChainRelay.Proofs.Files.Rereading

/-! # Commands that save settings

`config init` and `chains add-dir` leave a settings file with sound settings: the first only where there
was none, the second with all chains that were there before. If they fail, the file stays as it was.
-/

namespace ChainRelay

open Json (Value)

/-! ## Sound settings -/

/-- The settings name each chain once, and the registry accepts every backend. -/
structure RelayerConfig.Sound (r : Registry) (s : RelayerConfig) : Prop where
  distinct : (s.chains.map (·.name)).Nodup
  accepted : ∀ c ∈ s.chains, ∀ entry ∈ Commands.backendsOf c, r.validate entry.1 entry.2 = .ok ()
  ascending : ∀ c ∈ s.chains, c.Each (·.config.Ascending)

namespace Commands

theorem refusalOf?_eq_none {r : Registry} {c : ChainConfig} :
    refusalOf? r c = none ↔ ∀ entry ∈ backendsOf c, r.validate entry.1 entry.2 = .ok () := by
  rw [refusalOf?, List.findSome?_eq_none_iff]
  constructor
  · intro none entry member
    have here := none entry member
    cases checked : r.validate entry.1 entry.2 with
    | ok => rfl
    | error e => simp [checked] at here
  · intro each entry member
    simp only [each entry member]

theorem each_iff {c : ChainConfig} {P : BackendConfig → Prop} :
    c.Each P ↔ ∀ entry ∈ backendsOf c, P entry.2 := by
  obtain ⟨name, enabled, chain, signer, prover⟩ := c
  cases signer with
  | none =>
      simp only [backendsOf, List.append_nil, List.cons_append, List.nil_append, List.forall_mem_cons]
      constructor
      · exact fun each => ⟨each.chain, each.prover, List.forall_mem_nil _⟩
      · rintro ⟨chain, prover, -⟩
        exact ⟨chain, nofun, prover⟩
  | some s =>
      simp only [backendsOf, List.cons_append, List.nil_append, List.forall_mem_cons]
      constructor
      · exact fun each => ⟨each.chain, each.signer s rfl, each.prover, List.forall_mem_nil _⟩
      · rintro ⟨chain, signer, prover, -⟩
        refine ⟨chain, ?_, prover⟩
        rintro _ ⟨⟩
        exact signer

end Commands

namespace RelayerConfig

theorem sound_empty (r : Registry) : empty.Sound r :=
  ⟨List.nodup_nil, List.forall_mem_nil _, List.forall_mem_nil _⟩

/-- The content of a file, if it is there, is that of sound settings. -/
def SoundContent (r : Registry) (content : Option (List UInt8)) : Prop :=
  ∀ bytes, content = some bytes → ∃ s : RelayerConfig, s.Sound r ∧ bytes = s.encode

theorem soundContent_none (r : Registry) : SoundContent r none := by
  intro bytes held
  cases held

theorem Sound.content {r : Registry} {s : RelayerConfig} (sound : s.Sound r) :
    SoundContent r (some s.encode) := by
  intro bytes held
  cases held
  exact ⟨s, sound, rfl⟩

theorem repeatedName?_eq_none {seen : List String} {chains : List ChainConfig}
    (distinct : (seen ++ chains.map (·.name)).Nodup) : repeatedName? seen chains = none := by
  induction chains generalizing seen with
  | nil => rfl
  | cons c rest ih =>
      have new : c.name ∉ seen := by
        intro old
        exact (List.nodup_append.mp distinct).2.2 c.name old c.name (by simp) rfl
      rw [repeatedName?, if_neg (by simpa using new)]
      exact ih (by simpa using distinct)

/-- Sound settings are loaded as they were saved. -/
theorem Sound.ofContent {r : Registry} {s : RelayerConfig} (sound : s.Sound r) (flat : r.Flat)
    (file : FilePath) : ofContent file s.encode = .ok s := by
  have fits : ∀ c ∈ s.chains, c.Each (·.config.Fits configRoom) := by
    intro c member
    have ordered := Commands.each_iff.mp (sound.ascending c member)
    exact Commands.each_iff.mpr fun entry inside =>
      flat.fits (sound.accepted c member entry inside) (ordered entry inside) _
  have same : repeatedName? [] s.chains = none := repeatedName?_eq_none sound.distinct
  simp only [RelayerConfig.ofContent, decode_encode fits, duplicate?, same]

end RelayerConfig

namespace RelayerConfig

/-- The settings are sound, and list the chains of the others first. -/
structure Extends (r : Registry) (s s' : RelayerConfig) : Prop where
  sound : s'.Sound r
  before : s.chains <+: s'.chains

theorem Extends.trans {r : Registry} {s s' s'' : RelayerConfig} (first : s.Extends r s')
    (second : s'.Extends r s'') : s.Extends r s'' :=
  ⟨second.sound, first.before.trans second.before⟩

/-- An accepted chain with a new name keeps settings sound. -/
theorem Sound.extends_add {r : Registry} {s s' : RelayerConfig} {c : ChainConfig}
    (sound : s.Sound r) (accepted : Commands.refusalOf? r c = none)
    (ascending : c.Each (·.config.Ascending)) (added : s.add c = .ok s') : s.Extends r s' := by
  unfold add add? chain? at added
  split at added
  · rename_i settled same
    cases added
    split at same
    · cases same
    · rename_i free
      cases same
      refine ⟨⟨?_, ?_, ?_⟩, List.prefix_append _ _⟩
      · have new : c.name ∉ s.chains.map (·.name) := by simpa using free
        rw [List.map_append, List.nodup_append]
        refine ⟨sound.distinct, by simp, ?_⟩
        intro name member other single same
        simp only [List.map_cons, List.map_nil, List.mem_singleton] at single
        exact new (single ▸ same ▸ member)
      · rw [List.forall_mem_append, List.forall_mem_singleton]
        exact ⟨sound.accepted, Commands.refusalOf?_eq_none.mp accepted⟩
      · rw [List.forall_mem_append, List.forall_mem_singleton]
        exact ⟨sound.ascending, ascending⟩
  · cases added

end RelayerConfig

namespace Commands

open Program (harmless_question harmless_log)

variable {waits : Prop}

theorem harmless_acceptDefinition (ctx : Context) {s : RelayerConfig} (sound : s.Sound ctx.registry)
    (file : FilePath) :
    Attempt.Harmless waits (s.Extends ctx.registry) (acceptDefinition ctx s file) := by
  refine Attempt.Harmless.bind (Attempt.harmless_ofProgram (harmless_loadChain file)) fun c ascending => ?_
  split
  · exact Attempt.harmless_fail _
  · rename_i accepted
    refine Attempt.Harmless.bind (Attempt.harmless_lift (harmless_log _ _ _)) fun _ _ => ?_
    exact Attempt.harmless_ofExcept fun s' added => sound.extends_add accepted ascending added

theorem harmless_acceptDefinitions (ctx : Context) {s : RelayerConfig}
    (sound : s.Sound ctx.registry) (files : List FilePath) :
    Attempt.Harmless waits (s.Extends ctx.registry) (acceptDefinitions ctx s files) := by
  induction files generalizing s with
  | nil => exact Attempt.harmless_pure ⟨sound, List.prefix_refl _⟩
  | cons file rest ih =>
      refine (harmless_acceptDefinition ctx sound file).bind fun s' extended => ?_
      have more : Attempt.Harmless waits (s'.Extends ctx.registry) (acceptDefinitions ctx s' rest) :=
        ih extended.sound
      exact Program.Harmless.mono more id fun r holds s'' same => extended.trans (holds s'' same)

end Commands

/-! ## Runs -/

/-- The home directory that a command works with. -/
def Context.homeIn (ctx : Context) (w : World) : FilePath :=
  (ctx.matched.path? homeOption).getD (defaultHome w.userHome)

theorem World.SameDisk.homeIn {w w' : World} (same : w.SameDisk w') (ctx : Context) :
    ctx.homeIn w' = ctx.homeIn w := by
  rw [Context.homeIn, Context.homeIn, same.userHome]

theorem run_settingsPath (ctx : Context) (w : World) :
    World.run ctx.settingsPath w = (.finished (settingsPath (ctx.homeIn w)), w) := by
  unfold Context.settingsPath Context.home Context.homeIn
  cases ctx.matched.path? homeOption <;> rfl

theorem run_loadSettingsIn (file : FilePath) (w : World) {content : List UInt8}
    (read : w.files.read file = .ok content) :
    World.run (loadSettings file) w = (.finished (RelayerConfig.ofContent file content), w) := by
  have asked : World.run (Program.question (.readFile file)) w = (.finished (w.files.read file), w) := rfl
  rw [loadSettings, World.run_bind_finished asked, read]
  rfl

theorem run_loadChainIn (file : FilePath) (w : World) {content : List UInt8} (read : w.files.read file = .ok content) :
    World.run (loadChain file) w = (.finished (ChainConfig.ofContent file content), w) := by
  have asked : World.run (Program.question (.readFile file)) w = (.finished (w.files.read file), w) := rfl
  rw [loadChain, World.run_bind_finished asked, read]
  rfl

/-- Loading gives what is in the file, or fails. -/
theorem run_loadSettings (ctx : Context) (w : World) :
    (∃ e, World.run ctx.loadSettings.run w = (.finished (.error e), w)) ∨
      ∃ content s, w.files.read (settingsPath (ctx.homeIn w)) = .ok content ∧
        RelayerConfig.ofContent (settingsPath (ctx.homeIn w)) content = .ok s ∧
        World.run ctx.loadSettings.run w = (.finished (.ok s), w) := by
  have located := Attempt.run_lift_finished (run_settingsPath ctx w)
  have asked : World.run (Program.question (.readFile (settingsPath (ctx.homeIn w)))) w =
      (.finished (w.files.read (settingsPath (ctx.homeIn w))), w) := rfl
  unfold Context.loadSettings
  rw [Attempt.run_bind_ok located]
  cases read : w.files.read (settingsPath (ctx.homeIn w)) with
  | error fault =>
      have loaded : World.run (loadSettings (settingsPath (ctx.homeIn w))) w =
          (.finished (.error (.io (settingsPath (ctx.homeIn w)) fault)), w) := by
        rw [loadSettings, World.run_bind_finished asked, read]
        rfl
      exact .inl ⟨_, Attempt.run_ofProgram_error loaded⟩
  | ok content =>
      have loaded := run_loadSettingsIn _ w read
      cases held : RelayerConfig.ofContent (settingsPath (ctx.homeIn w)) content with
      | error e =>
          rw [held] at loaded
          exact .inl ⟨_, Attempt.run_ofProgram_error loaded⟩
      | ok s =>
          rw [held] at loaded
          exact .inr ⟨content, s, rfl, held, Attempt.run_ofProgram_ok loaded⟩

/-- Saving creates folders, and then writes the file or fails. -/
theorem run_saveSettings (file : FilePath) (s : RelayerConfig) (w : World) :
    ∃ t w', w.files.SameFiles t ∧ w.files.KeepsFolders t ∧
      ((∃ fault, World.run (saveSettings file s) w = (.finished (.error (.io file fault)), w') ∧ w'.files = t) ∨
        (World.run (saveSettings file s) w = (.finished (.ok ()), w') ∧
          t.write file s.encode = .ok w'.files)) := by
  have created := FileTree.sameFiles_createFoldersAround w.files file
  have kept := FileTree.keepsFolders_createFoldersAround w.files file
  cases result : w.files.createFoldersAround file with
  | mk t fault =>
      rw [result] at created kept
      cases fault with
      | some fault =>
          have around : World.run (Program.question (.createFoldersAround file)) w =
              (.finished (.error fault), { w with files := t }) := by
            rw [World.run_question, World.answer, result]
          refine ⟨t, { w with files := t }, created, kept, .inl ⟨fault, ?_, rfl⟩⟩
          rw [saveSettings, World.run_bind_finished around]
          rfl
      | none =>
          have around : World.run (Program.question (.createFoldersAround file)) w =
              (.finished (.ok ()), { w with files := t }) := by
            rw [World.run_question, World.answer, result]
          rw [saveSettings, World.run_bind_finished around]
          cases written : t.write file s.encode with
          | error fault =>
              have wrote : World.run (Program.question (.writeFile file s.encode)) { w with files := t } =
                  (.finished (.error fault), { w with files := t }) := by
                rw [World.run_question, World.answer]
                dsimp only
                rw [written]
                rfl
              refine ⟨t, { w with files := t }, created, kept, .inl ⟨fault, ?_, rfl⟩⟩
              dsimp only
              rw [World.run_bind_finished wrote]
              rfl
          | ok t' =>
              have wrote : World.run (Program.question (.writeFile file s.encode)) { w with files := t } =
                  (.finished (.ok ()), { w with files := t' }) := by
                rw [World.run_question, World.answer]
                dsimp only
                rw [written]
                rfl
              refine ⟨t, { w with files := t' }, created, kept, .inr ⟨?_, written⟩⟩
              dsimp only
              rw [World.run_bind_finished wrote]
              rfl

/-- Saving and telling so either fails and changes no file, or puts the settings into the file. -/
theorem run_saved {ctx : Context} {s : RelayerConfig} {text : String} {w : World} {place : List RawText}
    (resolves : w.files.Resolves (ctx.homeIn w) place) {ran : Ending (Except Report Unit) × World}
    (run : World.run (do
      Attempt.ofProgram ConfigError.report (saveSettings (settingsPath (ctx.homeIn w)) s)
      liftM (Program.printLine text) : Attempt Unit).run w = ran) :
    ((∃ e, ran.1 = .finished (.error e)) ∧ ran.2.files.settings? place = w.files.settings? place) ∨
      (ran.1 = .finished (.ok ()) ∧ ran.2.files.settings? place = some s.encode ∧
        ∀ content, w.files.settings? place = some content →
          w.files.contains (settingsPath (ctx.homeIn w)) = true) := by
  obtain ⟨t, w', same, -, ⟨fault, failed, rfl⟩ | ⟨saved, written⟩⟩ :=
    run_saveSettings (settingsPath (ctx.homeIn w)) s w
  · rw [Attempt.run_bind_error (Attempt.run_ofProgram_error failed)] at run
    subst run
    exact .inl ⟨⟨_, rfl⟩, same.settings? place⟩
  · have told : World.run (liftM (Program.printLine text) : Attempt Unit).run w' =
        (.finished (.ok ()), (w'.answer (.print (text ++ "\n"))).2) := rfl
    have disk := World.sameDisk_answer (q := .print (text ++ "\n")) trivial w'
    rw [Attempt.run_bind_ok (Attempt.run_ofProgram_ok saved), told] at run
    subst run
    refine .inr ⟨rfl, ?_, fun content there => FileTree.contains_settings resolves there written⟩
    rw [disk.files]
    exact FileTree.settings?_of_write resolves same written

namespace Commands

/-- `config init` either fails and leaves the settings file as it was, or creates it. -/
theorem run_initSettings (ctx : Context) {w : World} {place : List RawText}
    (resolves : w.files.Resolves (ctx.homeIn w) place) {ran : Ending (Except Report Unit) × World}
    (run : World.run (initSettings ctx).run w = ran) :
    ((∃ e, ran.1 = .finished (.error e)) ∧ ran.2.files.settings? place = w.files.settings? place) ∨
      (ran.1 = .finished (.ok ()) ∧ w.files.settings? place = none ∧
        ran.2.files.settings? place = some RelayerConfig.empty.encode) := by
  have located := Attempt.run_lift_finished (run_settingsPath ctx w)
  have asked :
      World.run (liftM (Program.question (.fileExists (settingsPath (ctx.homeIn w)))) : Attempt Bool).run w =
        (.finished (.ok (w.files.contains (settingsPath (ctx.homeIn w)))), w) := rfl
  unfold initSettings at run
  rw [Attempt.run_bind_ok located] at run
  replace run := (Attempt.run_bind_ok asked).symm.trans run
  cases found : w.files.contains (settingsPath (ctx.homeIn w)) with
  | true =>
      rw [found] at run
      subst run
      exact .inl ⟨⟨_, rfl⟩, rfl⟩
  | false =>
      rw [found] at run
      rcases run_saved resolves run with failed | ⟨ended, saved, seen⟩
      · exact .inl failed
      · refine .inr ⟨ended, ?_, saved⟩
        cases there : w.files.settings? place with
        | none => rfl
        | some content =>
            rw [found] at seen
            cases seen content there

/-- The settings file is as it was before, or the run succeeds and the file holds sound settings that
extend those from before. -/
def Advanced (r : Registry) (place : List RawText) (before : Option (List UInt8))
    (ran : Ending (Except Report Unit) × World) : Prop :=
  ran.2.files.settings? place = before ∨
    (ran.1 = .finished (.ok ()) ∧ ∃ s s' : RelayerConfig,
      before = some s.encode ∧ s.Sound r ∧ s.Extends r s' ∧ ran.2.files.settings? place = some s'.encode)

/-- `chains add-dir` leaves the settings file as it was, or succeeds and extends the settings in it. -/
theorem advanced_addFolder (ctx : Context) (flat : ctx.registry.Flat) {w : World} {place : List RawText}
    (resolves : w.files.Resolves (ctx.homeIn w) place)
    (good : RelayerConfig.SoundContent ctx.registry (w.files.settings? place)) :
    Advanced ctx.registry place (w.files.settings? place) (World.run (addFolder ctx).run w) := by
  have unchanged (ran : Ending (Except Report Unit) × World) (disk : w.SameDisk ran.2) :
      Advanced ctx.registry place (w.files.settings? place) ran := .inl (by rw [disk.files])
  refine Attempt.run_bind_harmless (Attempt.harmless_ofOption _ fun _ _ => trivial) unchanged
    fun folder w₁ _ first => ?_
  rcases run_loadSettings ctx w₁ with ⟨e, failed⟩ | ⟨content, s, read, held, loaded⟩
  · rw [Attempt.run_bind_error failed]
    exact unchanged _ first
  rw [Attempt.run_bind_ok loaded]
  rw [first.files, first.homeIn] at read
  have there := FileTree.settings?_of_read resolves read
  obtain ⟨s', sound, rfl⟩ := good content there
  have same := sound.ofContent flat (settingsPath (ctx.homeIn w₁))
  rw [held, Except.ok.injEq] at same
  subst same
  refine Attempt.run_bind_harmless (P := fun _ => True) ?_ (fun ran disk => unchanged ran (first.trans disk))
    fun names w₂ _ second => ?_
  · refine Attempt.harmless_ofProgram ?_
    exact (Program.harmless_question (q := .listFolder folder) trivial).mono id fun _ _ _ _ => trivial
  dsimp only
  split
  · rw [Attempt.run_bind_error rfl]
    exact unchanged _ (first.trans second)
  have disk := first.trans second
  refine Attempt.run_bind_harmless (harmless_acceptDefinitions ctx sound _)
    (fun ran later => unchanged ran (disk.trans later)) fun s' w₃ extended third => ?_
  replace disk := disk.trans third
  rw [Attempt.run_bind_ok (Attempt.run_lift_finished (run_settingsPath ctx w₃))]
  rw [← disk.files, ← disk.homeIn ctx] at resolves
  rcases run_saved resolves rfl with ⟨-, kept⟩ | ⟨ended, saved, -⟩
  · left
    rw [kept, disk.files]
  · exact .inr ⟨ended, s, s', there, sound, extended, saved⟩

end Commands

end ChainRelay
