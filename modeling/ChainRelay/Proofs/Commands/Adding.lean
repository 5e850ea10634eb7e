import ChainRelay.Proofs.Commands.Definitions
import ChainRelay.Proofs.Commands.Saving
import ChainRelay.Proofs.Files.Around
import Mathlib.Data.List.Forall2
import Mathlib.Data.List.Perm.Basic

/-! # Adding chains from a folder

`chains add-dir` takes all definitions of a folder or none. It succeeds exactly when the settings and every
definition can be loaded, the registry accepts every backend, and no name is taken twice; then the settings
file holds the chains from before and the definitions behind them, in the order of their file names.
-/

namespace ChainRelay

/-! ## Runs -/

/-- The world after it differs from the one before in its log only. -/
structure World.OnlyLogged (w w' : World) : Prop where
  files : w'.files = w.files
  userHome : w'.userHome = w.userHome
  printed : w'.printed = w.printed
  constructed : w'.constructed = w.constructed

theorem World.OnlyLogged.refl (w : World) : w.OnlyLogged w :=
  ⟨rfl, rfl, rfl, rfl⟩

theorem World.OnlyLogged.trans {w w' w'' : World} (first : w.OnlyLogged w') (second : w'.OnlyLogged w'') :
    w.OnlyLogged w'' :=
  ⟨second.files.trans first.files, second.userHome.trans first.userHome,
    second.printed.trans first.printed, second.constructed.trans first.constructed⟩

theorem World.onlyLogged_keep (w : World) (entry : LogEntry) : w.OnlyLogged (w.keep entry) := by
  unfold keep
  split <;> exact ⟨rfl, rfl, rfl, rfl⟩

theorem World.constructed_afterPrint (w : World) (text : String) :
    (w.afterPrint text).constructed = w.constructed := by
  unfold afterPrint
  split
  · split <;> rfl
  · rfl

/-- Settings are saved in the place of a file that can be read. -/
theorem run_saveSettings_of_read {file : FilePath} {content : List UInt8} {w : World}
    (read : w.files.read file = .ok content) (s : RelayerConfig) :
    ∃ t : FileTree, t.read file = .ok s.encode ∧
      World.run (saveSettings file s) w = (.finished (.ok ()), { w with files := t }) := by
  obtain ⟨t, written⟩ := FileTree.write_of_read read s.encode
  have around : World.run (Program.question (.createFoldersAround file)) w = (.finished (.ok ()), w) := by
    rw [World.run_question, World.answer, FileTree.createFoldersAround_of_read read]
  have wrote : World.run (Program.question (.writeFile file s.encode)) w =
      (.finished (.ok ()), { w with files := t }) := by
    rw [World.run_question, World.answer, written]
    rfl
  refine ⟨t, FileTree.reread read written, ?_⟩
  rw [saveSettings, World.run_bind_finished around]
  dsimp only
  rw [World.run_bind_finished wrote]
  rfl

/-- The file holds settings. -/
def FileTree.Settles (t : FileTree) (file : FilePath) (s : RelayerConfig) : Prop :=
  ∃ content, t.read file = .ok content ∧ RelayerConfig.ofContent file content = .ok s

theorem FileTree.Settles.unique {t : FileTree} {file : FilePath} {s s' : RelayerConfig} (first : t.Settles file s)
    (second : t.Settles file s') : s = s' := by
  obtain ⟨content, read, held⟩ := first
  obtain ⟨content', read', held'⟩ := second
  cases read.symm.trans read'
  cases held.symm.trans held'
  rfl

theorem run_loadSettings_of_settles {ctx : Context} {w : World} {s : RelayerConfig}
    (settles : w.files.Settles (settingsPath (ctx.homeIn w)) s) :
    World.run ctx.loadSettings.run w = (.finished (.ok s), w) := by
  obtain ⟨content, read, held⟩ := settles
  unfold Context.loadSettings
  rw [Attempt.run_bind_ok (Attempt.run_lift_finished (run_settingsPath ctx w))]
  refine Attempt.run_ofProgram_ok ?_
  rw [run_loadSettingsIn _ w read, held]

/-- The file holds the definition of a chain. -/
def FileTree.Defines (t : FileTree) (file : FilePath) (d : ChainConfig) : Prop :=
  ∃ content, t.read file = .ok content ∧ ChainConfig.ofContent file content = .ok d

/-- Loading a chain gives the definition in the file, or fails. -/
theorem run_loadChain (file : FilePath) (w : World) :
    (∃ d, w.files.Defines file d ∧ World.run (loadChain file) w = (.finished (.ok d), w)) ∨
      ∃ e, (∀ d, ¬w.files.Defines file d) ∧ World.run (loadChain file) w = (.finished (.error e), w) := by
  cases read : w.files.read file with
  | error fault =>
      have asked : World.run (Program.question (.readFile file)) w = (.finished (w.files.read file), w) := rfl
      rw [loadChain, World.run_bind_finished asked, read]
      refine .inr ⟨.io file fault, ?_, rfl⟩
      rintro d ⟨content, read', -⟩
      cases read.symm.trans read'
  | ok content =>
      rw [run_loadChainIn file w read]
      cases held : ChainConfig.ofContent file content with
      | ok d => exact .inl ⟨d, ⟨content, read, held⟩, rfl⟩
      | error e =>
          refine .inr ⟨e, ?_, rfl⟩
          rintro d ⟨content', read', held'⟩
          cases read.symm.trans read'
          cases held.symm.trans held'

theorem FileTree.Defines.unique {t : FileTree} {file : FilePath} {d d' : ChainConfig}
    (first : t.Defines file d) (second : t.Defines file d') : d = d' := by
  obtain ⟨content, read, held⟩ := first
  obtain ⟨content', read', held'⟩ := second
  cases read.symm.trans read'
  cases held.symm.trans held'
  rfl

namespace RelayerConfig

/-- A chain is appended unless its name is taken. -/
theorem add_eq_ok_iff {s s' : RelayerConfig} {d : ChainConfig} :
    s.add d = .ok s' ↔ (∀ c ∈ s.chains, c.name ≠ d.name) ∧ s' = ⟨s.chains ++ [d]⟩ := by
  have free : (s.chain? d.name).isSome = false ↔ ∀ c ∈ s.chains, c.name ≠ d.name := by
    simp [chain?, List.find?_eq_none]
  rw [← free]
  unfold add add?
  cases (s.chain? d.name).isSome <;> simp [eq_comm]

end RelayerConfig

namespace Commands

/-- The files hold definitions that may follow the chains of settings. -/
structure Acceptable (r : Registry) (t : FileTree) (old : List ChainConfig) (files : List FilePath)
    (defs : List ChainConfig) : Prop where
  read : List.Forall₂ t.Defines files defs
  accepted : ∀ d ∈ defs, ∀ entry ∈ backendsOf d, r.validate entry.1 entry.2 = .ok ()
  distinct : (defs.map (·.name)).Nodup
  new : ∀ d ∈ defs, ∀ c ∈ old, c.name ≠ d.name

/-- The file holds a definition that may follow the chains of settings. -/
structure Admissible (r : Registry) (t : FileTree) (old : List ChainConfig) (file : FilePath) (d : ChainConfig) :
    Prop where
  defines : t.Defines file d
  accepted : ∀ entry ∈ backendsOf d, r.validate entry.1 entry.2 = .ok ()
  new : ∀ c ∈ old, c.name ≠ d.name

theorem acceptable_nil (r : Registry) (t : FileTree) (old : List ChainConfig) : Acceptable r t old [] [] :=
  ⟨.nil, List.forall_mem_nil _, List.nodup_nil, List.forall_mem_nil _⟩

theorem acceptable_cons_iff {r : Registry} {t : FileTree} {old : List ChainConfig} {file : FilePath}
    {files : List FilePath} {d : ChainConfig} {defs : List ChainConfig} :
    Acceptable r t old (file :: files) (d :: defs) ↔
      Admissible r t old file d ∧ Acceptable r t (old ++ [d]) files defs := by
  constructor
  · rintro ⟨read, accepted, distinct, new⟩
    obtain ⟨here, others⟩ := List.forall₂_cons.mp read
    obtain ⟨first, rest⟩ := List.forall_mem_cons.mp accepted
    obtain ⟨newHere, newOthers⟩ := List.forall_mem_cons.mp new
    obtain ⟨apart, later⟩ := List.nodup_cons.mp distinct
    refine ⟨⟨here, first, newHere⟩, others, rest, later, fun d' member => ?_⟩
    rw [List.forall_mem_append, List.forall_mem_singleton]
    exact ⟨newOthers d' member, fun same => apart (List.mem_map.mpr ⟨d', member, same.symm⟩)⟩
  · rintro ⟨⟨here, first, newHere⟩, others, rest, later, newOthers⟩
    refine ⟨.cons here others, List.forall_mem_cons.mpr ⟨first, rest⟩, ?_, List.forall_mem_cons.mpr ⟨newHere, ?_⟩⟩
    · refine List.nodup_cons.mpr ⟨fun member => ?_, later⟩
      obtain ⟨d', inside, same⟩ := List.mem_map.mp member
      exact newOthers d' inside d (List.mem_append_right _ (List.mem_singleton_self d)) same.symm
    · exact fun d' member c inside => newOthers d' member c (List.mem_append_left _ inside)

theorem Acceptable.defined {r : Registry} {t : FileTree} {old : List ChainConfig} {files : List FilePath}
    {defs : List ChainConfig} (acceptable : Acceptable r t old files defs) : ∀ d ∈ defs, ∃ file, t.Defines file d := by
  have read := acceptable.read
  clear acceptable
  induction read with
  | nil => exact List.forall_mem_nil _
  | cons here _ ih => exact List.forall_mem_cons.mpr ⟨⟨_, here⟩, ih⟩

/-- Whether definitions may be added does not depend on the order in which their files are taken. -/
theorem Acceptable.perm {r : Registry} {t : FileTree} {old : List ChainConfig} {files files' : List FilePath}
    {defs : List ChainConfig} (acceptable : Acceptable r t old files defs) (same : files'.Perm files) :
    ∃ defs', Acceptable r t old files' defs' := by
  obtain ⟨defs', read, reordered⟩ := List.perm_comp_forall₂ same acceptable.read
  refine ⟨defs', read, ?_, ?_, ?_⟩
  · exact fun d member => acceptable.accepted d (reordered.subset member)
  · exact (reordered.map _).nodup_iff.mpr acceptable.distinct
  · exact fun d member => acceptable.new d (reordered.subset member)

/-- A definition is accepted exactly when it may follow the chains from before. -/
theorem run_acceptDefinition (ctx : Context) (s : RelayerConfig) (file : FilePath) (w : World) :
    ∃ r w', World.run (acceptDefinition ctx s file).run w = (.finished r, w') ∧ w.OnlyLogged w' ∧
      ∀ s', r = .ok s' ↔
        ∃ d, Admissible ctx.registry w.files s.chains file d ∧ s' = ⟨s.chains ++ [d]⟩ := by
  rw [acceptDefinition]
  rcases run_loadChain file w with ⟨d, defines, loaded⟩ | ⟨e, none, failed⟩
  · rw [Attempt.run_bind_ok (Attempt.run_ofProgram_ok loaded)]
    cases refusal : refusalOf? ctx.registry d with
    | some e =>
        refine ⟨_, w, rfl, .refl w, fun s' => ⟨nofun, ?_⟩⟩
        rintro ⟨d', ⟨defines', accepted, -⟩, -⟩
        rw [← defines.unique defines', ← refusalOf?_eq_none, refusal] at accepted
        cases accepted
    | none =>
        have accepted := refusalOf?_eq_none.mp refusal
        have added (s' : RelayerConfig) : s.add d = .ok s' ↔
            ∃ d', Admissible ctx.registry w.files s.chains file d' ∧ s' = ⟨s.chains ++ [d']⟩ := by
          rw [RelayerConfig.add_eq_ok_iff]
          constructor
          · rintro ⟨new, same⟩
            exact ⟨d, ⟨defines, accepted, new⟩, same⟩
          · rintro ⟨d', ⟨defines', -, new⟩, same⟩
            cases defines.unique defines'
            exact ⟨new, same⟩
        have told (message : String) :
            World.run (liftM (Program.log .info .chains message) : Attempt Unit).run w =
              (.finished (.ok ()), w.keep ⟨.info, [], .chains, message⟩) := rfl
        dsimp only
        rw [Attempt.run_bind_ok (told _)]
        cases result : s.add d with
        | ok s'' =>
            refine ⟨.ok s'', _, rfl, w.onlyLogged_keep _, fun s' => ?_⟩
            rw [← added, result]
            simp
        | error e =>
            refine ⟨.error e.report, _, rfl, w.onlyLogged_keep _, fun s' => ?_⟩
            rw [← added, result]
            simp
  · rw [Attempt.run_bind_error (Attempt.run_ofProgram_error failed)]
    refine ⟨_, w, rfl, .refl w, fun s' => ⟨nofun, ?_⟩⟩
    rintro ⟨d, ⟨defines, -, -⟩, -⟩
    exact absurd defines (none d)

/-- Definitions are accepted one after the other, each behind those before it. -/
theorem run_acceptDefinitions (ctx : Context) (s : RelayerConfig) (files : List FilePath) (w : World) :
    ∃ r w', World.run (acceptDefinitions ctx s files).run w = (.finished r, w') ∧ w.OnlyLogged w' ∧
      ∀ s', r = .ok s' ↔
        ∃ defs, Acceptable ctx.registry w.files s.chains files defs ∧ s' = ⟨s.chains ++ defs⟩ := by
  induction files generalizing s w with
  | nil =>
      refine ⟨.ok s, w, rfl, .refl w, fun s' => ?_⟩
      constructor
      · rintro ⟨⟩
        exact ⟨[], acceptable_nil _ _ _, by rw [List.append_nil]⟩
      · rintro ⟨defs, acceptable, rfl⟩
        cases acceptable.read
        rw [List.append_nil]
  | cons file rest ih =>
      obtain ⟨first, w₁, ran, logged, outcome⟩ := run_acceptDefinition ctx s file w
      have unfolded (s' : RelayerConfig) :
          (∃ defs, Acceptable ctx.registry w.files s.chains (file :: rest) defs ∧ s' = ⟨s.chains ++ defs⟩) ↔
            ∃ s₁, first = .ok s₁ ∧
              ∃ defs, Acceptable ctx.registry w.files s₁.chains rest defs ∧ s' = ⟨s₁.chains ++ defs⟩ := by
        constructor
        · rintro ⟨defs, acceptable, rfl⟩
          obtain ⟨d, defs, -, -, rfl⟩ := List.forall₂_cons_left_iff.mp acceptable.read
          obtain ⟨here, others⟩ := acceptable_cons_iff.mp acceptable
          exact ⟨_, (outcome _).mpr ⟨d, here, rfl⟩, defs, others, by rw [List.append_assoc, List.singleton_append]⟩
        · rintro ⟨s₁, accepted, defs, others, rfl⟩
          obtain ⟨d, here, rfl⟩ := (outcome _).mp accepted
          exact ⟨d :: defs, acceptable_cons_iff.mpr ⟨here, others⟩, by rw [List.append_assoc, List.singleton_append]⟩
      rw [acceptDefinitions]
      simp only [unfolded]
      cases first with
      | error e =>
          rw [Attempt.run_bind_error ran]
          exact ⟨_, w₁, rfl, logged, by simp⟩
      | ok s₁ =>
          obtain ⟨r, w₂, more, later, result⟩ := ih s₁ w₁
          rw [Attempt.run_bind_ok ran]
          refine ⟨r, w₂, more, logged.trans later, fun s' => ?_⟩
          rw [result, logged.files]
          simp

/-! ## The command -/

/-- Definitions in a folder may be added to the settings. -/
structure Addition (ctx : Context) (w : World) (folder : FilePath) (old : RelayerConfig) (names : List RawText)
    (defs : List ChainConfig) : Prop where
  asked : ctx.matched.path? "dir" = some folder
  loads : w.files.Settles (settingsPath (ctx.homeIn w)) old
  listed : ∃ listing, w.files.list folder = .ok listing ∧ Definitions listing names
  some' : names ≠ []
  acceptable : Acceptable ctx.registry w.files old.chains (names.map folder.join) defs

/-- How `chains add-dir` ends: it adds the definitions, or it fails and changes no file. -/
inductive Adds (ctx : Context) (w : World) : Except Report Unit → World → Prop where
  | added {folder : FilePath} {old : RelayerConfig} {names : List RawText} {defs : List ChainConfig} {w' : World}
      (addition : Addition ctx w folder old names defs)
      (saved : w'.files.read (settingsPath (ctx.homeIn w)) = .ok (RelayerConfig.encode ⟨old.chains ++ defs⟩))
      (printed : w'.printed =
        ("added " ++ Nat.repr defs.length ++ " chain(s) from " ++ folder.display ++ "\n") :: w.printed)
      (constructed : w'.constructed = w.constructed) : Adds ctx w (.ok ()) w'
  | refused {e : Report} {w' : World}
      (none : ∀ folder old names defs, ¬Addition ctx w folder old names defs)
      (logged : w.OnlyLogged w') : Adds ctx w (.error e) w'

/-- Once the folder has been read, either all definitions are saved behind the chains from before, or the
run fails before anything is written. -/
theorem run_acceptAndSave {ctx : Context} {w : World} {old : RelayerConfig} {content : List UInt8}
    (read : w.files.read (settingsPath (ctx.homeIn w)) = .ok content) (files : List FilePath) (text : String) :
    ∃ r w', World.run (do
        let settings ← acceptDefinitions ctx old files
        let path ← ctx.settingsPath
        Attempt.ofProgram ConfigError.report (saveSettings path settings)
        liftM (Program.printLine text) : Attempt Unit).run w = (.finished r, w') ∧
      ((∃ defs, Acceptable ctx.registry w.files old.chains files defs ∧ r = .ok () ∧
          w'.files.read (settingsPath (ctx.homeIn w)) = .ok (RelayerConfig.encode ⟨old.chains ++ defs⟩) ∧
          w'.printed = (text ++ "\n") :: w.printed ∧ w'.constructed = w.constructed) ∨
        ((∀ defs, ¬Acceptable ctx.registry w.files old.chains files defs) ∧ (∃ e, r = .error e) ∧
          w.OnlyLogged w')) := by
  obtain ⟨accepted, w₁, ran, logged, outcome⟩ := run_acceptDefinitions ctx old files w
  cases accepted with
  | error e =>
      rw [Attempt.run_bind_error ran]
      refine ⟨.error e, w₁, rfl, .inr ⟨fun defs acceptable => ?_, ⟨e, rfl⟩, logged⟩⟩
      cases (outcome _).mpr ⟨defs, acceptable, rfl⟩
  | ok s =>
      obtain ⟨defs, acceptable, rfl⟩ := (outcome s).mp rfl
      have sameHome : ctx.homeIn w₁ = ctx.homeIn w := World.SameDisk.homeIn ⟨logged.files, logged.userHome⟩ ctx
      rw [← logged.files] at read
      obtain ⟨t, saved, wrote⟩ := run_saveSettings_of_read read ⟨old.chains ++ defs⟩
      have told (w : World) : World.run (liftM (Program.printLine text) : Attempt Unit).run w =
          (.finished (.ok ()), (w.answer (.print (text ++ "\n"))).2) := rfl
      rw [Attempt.run_bind_ok ran, Attempt.run_bind_ok (Attempt.run_lift_finished (run_settingsPath ctx w₁)),
        sameHome, Attempt.run_bind_ok (Attempt.run_ofProgram_ok wrote), told]
      refine ⟨.ok (), _, rfl, .inl ⟨defs, acceptable, rfl, ?_, ?_, ?_⟩⟩
      · rw [(World.sameDisk_answer (q := .print (text ++ "\n")) trivial _).files]
        exact saved
      · change (World.afterPrint _ _).printed = _
        rw [World.printed_afterPrint, ← logged.printed]
      · change (World.afterPrint _ _).constructed = _
        rw [World.constructed_afterPrint, ← logged.constructed]

/-- What may be added does not depend on the order in which the folder lists its names. -/
theorem Addition.reorder {ctx : Context} {w : World} {folder folder' : FilePath} {old old' : RelayerConfig}
    {listing names names' : List RawText} {defs' : List ChainConfig}
    (addition : Addition ctx w folder' old' names' defs') (asked : ctx.matched.path? "dir" = some folder)
    (settles : w.files.Settles (settingsPath (ctx.homeIn w)) old) (listed : w.files.list folder = .ok listing)
    (definitions : Definitions listing names) :
    names ≠ [] ∧ ∃ defs, Acceptable ctx.registry w.files old.chains (names.map (FilePath.join folder)) defs := by
  cases asked.symm.trans addition.asked
  cases settles.unique addition.loads
  obtain ⟨listing', listed', definitions'⟩ := addition.listed
  rw [listed, Except.ok.injEq] at listed'
  subst listed'
  have same : names.Perm names' := definitions.perm.trans definitions'.perm.symm
  refine ⟨?_, addition.acceptable.perm (same.map _)⟩
  rintro rfl
  exact addition.some' same.nil_eq.symm

/-- `chains add-dir` adds all definitions in a folder, or fails and changes no file. -/
theorem run_addFolder (ctx : Context) (w : World) :
    ∃ r w', World.run (addFolder ctx).run w = (.finished r, w') ∧ Adds ctx w r w' := by
  unfold addFolder
  cases asked : ctx.matched.path? "dir" with
  | none =>
      refine ⟨_, w, rfl, .refused ?_ (.refl w)⟩
      intro folder old names defs addition
      cases asked.symm.trans addition.asked
  | some folder =>
      have given : World.run (Attempt.ofOption "missing directory argument" (some folder)).run w =
          (.finished (.ok folder), w) := rfl
      rw [Attempt.run_bind_ok given]
      rcases run_loadSettings ctx w with ⟨e, failed⟩ | ⟨content, old, read, held, loaded⟩
      · rw [Attempt.run_bind_error failed]
        refine ⟨_, w, rfl, .refused ?_ (.refl w)⟩
        intro folder old names defs addition
        cases failed.symm.trans (run_loadSettings_of_settles addition.loads)
      have settles : w.files.Settles (settingsPath (ctx.homeIn w)) old := ⟨content, read, held⟩
      have seen : World.run (Program.question (.listFolder folder)) w = (.finished (w.files.list folder), w) := rfl
      rw [Attempt.run_bind_ok loaded]
      cases listed : w.files.list folder with
      | error fault =>
          rw [listed] at seen
          rw [Attempt.run_bind_error (Attempt.run_ofProgram_error seen)]
          refine ⟨_, w, rfl, .refused ?_ (.refl w)⟩
          intro folder old names defs addition
          obtain ⟨listing, listed', -⟩ := addition.listed
          cases asked.symm.trans addition.asked
          cases listed.symm.trans listed'
      | ok listing =>
          rw [listed] at seen
          rw [Attempt.run_bind_ok (Attempt.run_ofProgram_ok seen)]
          obtain ⟨names, definitions, files⟩ := definitionFiles_eq folder listing
          dsimp only
          rw [files]
          by_cases empty : names = []
          · subst empty
            refine ⟨_, w, rfl, .refused ?_ (.refl w)⟩
            intro folder old names defs addition
            exact (addition.reorder asked settles listed definitions).1 rfl
          have filled : (names.map (FilePath.join folder)).isEmpty = false := by simpa using empty
          obtain ⟨r, w', ran, outcome⟩ := run_acceptAndSave read (names.map (FilePath.join folder))
            ("added " ++ Nat.repr (names.map (FilePath.join folder)).length ++ " chain(s) from " ++ folder.display)
          refine ⟨r, w', ?_, ?_⟩
          · simp only [filled, Bool.false_eq_true, if_false]
            exact ran
          rcases outcome with ⟨defs, acceptable, rfl, saved, printed, constructed⟩ | ⟨none, ⟨e, rfl⟩, logged⟩
          · refine .added ⟨asked, settles, ⟨listing, listed, definitions⟩, empty, acceptable⟩ saved ?_ constructed
            rw [printed, acceptable.read.length_eq]
          · refine .refused (fun folder old names defs addition => ?_) logged
            obtain ⟨-, defs, acceptable⟩ := addition.reorder asked settles listed definitions
            exact none defs acceptable

/-- The other world has the same files, but a folder may list its names in another order. -/
structure Relisted (w v : World) : Prop where
  userHome : v.userHome = w.userHome
  read : ∀ p, v.files.read p = w.files.read p
  list : ∀ p (names : List RawText), (∃ listing, w.files.list p = .ok listing ∧ names.Perm listing) ↔
    ∃ listing, v.files.list p = .ok listing ∧ names.Perm listing

variable {ctx : Context} {w v w' v' : World} {r r' : Except Report Unit}

theorem Relisted.symm (relisted : Relisted w v) : Relisted v w :=
  ⟨relisted.userHome.symm, fun p => (relisted.read p).symm, fun p names => (relisted.list p names).symm⟩

theorem Relisted.homeIn (relisted : Relisted w v) (ctx : Context) : ctx.homeIn v = ctx.homeIn w := by
  rw [Context.homeIn, Context.homeIn, relisted.userHome]

theorem Relisted.defines (relisted : Relisted w v) : v.files.Defines = w.files.Defines := by
  funext file d
  rw [FileTree.Defines, FileTree.Defines, relisted.read]

theorem Relisted.addition (relisted : Relisted w v) {folder : FilePath} {old : RelayerConfig}
    {names : List RawText} {defs : List ChainConfig} (addition : Addition ctx w folder old names defs) :
    Addition ctx v folder old names defs := by
  obtain ⟨asked, ⟨content, read, held⟩, ⟨listing, listed, definitions⟩, some', acceptable⟩ := addition
  obtain ⟨listing', listed', same⟩ := (relisted.list folder listing).mp ⟨listing, listed, .refl _⟩
  rw [← relisted.read, ← relisted.homeIn ctx] at read
  rw [← relisted.homeIn ctx] at held
  refine ⟨asked, ⟨content, read, held⟩, ⟨listing', listed', ?_⟩, some', ?_⟩
  · exact ⟨definitions.perm.trans (same.filter _), definitions.ascending⟩
  · refine ⟨?_, acceptable.accepted, acceptable.distinct, acceptable.new⟩
    rw [relisted.defines]
    exact acceptable.read

/-- If no name is listed twice, at most one addition is possible. -/
theorem Addition.unique {folder folder' : FilePath} {old old' : RelayerConfig} {names names' : List RawText}
    {defs defs' : List ChainConfig}
    (distinct : ∀ listing, w.files.list folder = .ok listing → (listing.map RawText.toBytes).Nodup)
    (first : Addition ctx w folder old names defs) (second : Addition ctx w folder' old' names' defs') :
    old = old' ∧ defs = defs' := by
  cases first.asked.symm.trans second.asked
  cases first.loads.unique second.loads
  obtain ⟨listing, listed, definitions⟩ := first.listed
  obtain ⟨listing', listed', definitions'⟩ := second.listed
  cases listed.symm.trans listed'
  cases definitions.unique (distinct _ listed) definitions'
  have functional : Relator.RightUnique w.files.Defines := fun _ _ _ => FileTree.Defines.unique
  exact ⟨rfl, functional.forall₂ first.acceptable.read second.acceptable.read⟩

theorem Adds.ok_iff (adds : Adds ctx w r w') :
    r = .ok () ↔ ∃ folder old names defs, Addition ctx w folder old names defs := by
  cases adds with
  | added addition => exact ⟨fun _ => ⟨_, _, _, _, addition⟩, fun _ => rfl⟩
  | refused none =>
      refine ⟨nofun, ?_⟩
      rintro ⟨folder, old, names, defs, addition⟩
      exact absurd addition (none folder old names defs)

theorem Adds.relisted (relisted : Relisted w v)
    (distinct : ∀ p listing, w.files.list p = .ok listing → (listing.map RawText.toBytes).Nodup)
    (adds : Adds ctx w r w') (adds' : Adds ctx v r' v') :
    (r' = .ok () ↔ r = .ok ()) ∧
      (r = .ok () → v'.files.read (settingsPath (ctx.homeIn v)) = w'.files.read (settingsPath (ctx.homeIn w))) := by
  have same : r' = .ok () ↔ r = .ok () := by
    rw [adds.ok_iff, adds'.ok_iff]
    constructor
    · rintro ⟨folder, old, names, defs, addition⟩
      exact ⟨folder, old, names, defs, relisted.symm.addition addition⟩
    · rintro ⟨folder, old, names, defs, addition⟩
      exact ⟨folder, old, names, defs, relisted.addition addition⟩
  refine ⟨same, fun ended => ?_⟩
  have ended' := same.mpr ended
  cases adds with
  | refused => cases ended
  | added addition saved =>
      cases adds' with
      | refused => cases ended'
      | added addition' saved' =>
          obtain ⟨rfl, rfl⟩ := addition.unique (distinct _) (relisted.symm.addition addition')
          rw [saved, saved']

/-- `chains add-dir` succeeds exactly when the definitions in the folder may be added. Then the settings list
them behind the chains from before, in byte order of their file names, whatever the order in which the folder
lists them; if it fails, every file is as it was. No backend is built. -/
theorem addFolder_all_or_nothing (ctx : Context) (w : World) :
    ∃ r w', World.run (addFolder ctx).run w = (.finished r, w') ∧
      (r = .ok () ↔ ∃ folder old names defs, Addition ctx w folder old names defs) ∧
      (r = .ok () → ∃ folder old names defs, Addition ctx w folder old names defs ∧
        w'.files.read (settingsPath (ctx.homeIn w)) = .ok (RelayerConfig.encode ⟨old.chains ++ defs⟩) ∧
        w'.printed =
          ("added " ++ Nat.repr defs.length ++ " chain(s) from " ++ folder.display ++ "\n") :: w.printed) ∧
      (r ≠ .ok () → w'.files = w.files) ∧
      w'.constructed = w.constructed ∧
      ∀ v, Relisted w v →
        (∀ p listing, w.files.list p = .ok listing → (listing.map RawText.toBytes).Nodup) →
        ∃ r' v', World.run (addFolder ctx).run v = (.finished r', v') ∧ (r' = .ok () ↔ r = .ok ()) ∧
          (r = .ok () →
            v'.files.read (settingsPath (ctx.homeIn v)) = w'.files.read (settingsPath (ctx.homeIn w))) := by
  obtain ⟨r, w', ran, adds⟩ := run_addFolder ctx w
  refine ⟨r, w', ran, adds.ok_iff, ?_, ?_, ?_, ?_⟩
  · intro ended
    cases adds with
    | refused => cases ended
    | added addition saved printed => exact ⟨_, _, _, _, addition, saved, printed⟩
  · intro failed
    cases adds with
    | refused none logged => exact logged.files
    | added => exact absurd rfl failed
  · cases adds with
    | refused none logged => exact logged.constructed
    | added addition saved printed constructed => exact constructed
  · intro v relisted distinct
    obtain ⟨r', v', ran', adds'⟩ := run_addFolder ctx v
    exact ⟨r', v', ran', adds.relisted relisted distinct adds'⟩

end Commands

end ChainRelay
