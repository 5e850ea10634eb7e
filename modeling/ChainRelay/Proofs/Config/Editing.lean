import ChainRelay.Proofs.Config.Trailing

/-! # Settings that are edited

Settings are loaded, extended, saved and given up in any order. The names of their chains stay apart all the
time: loading finds the first chain whose name has occurred, and adding a chain finds that its name is taken.
-/

namespace ChainRelay

namespace RelayerConfig

variable {s : RelayerConfig} {name : String} {chains : List ChainConfig} {c : ChainConfig}

/-! ## Names -/

/-- The name is that of the earliest chain whose name has occurred before it: up to that chain, all names are
different. -/
def FirstRepeated (s : RelayerConfig) (name : String) : Prop :=
  ∃ before c after, s.chains = before ++ c :: after ∧ c.name = name ∧ name ∈ before.map (·.name) ∧
    (before.map (·.name)).Nodup

theorem repeatedName?_eq_some_iff {seen : List String} (distinct : seen.Nodup) :
    repeatedName? seen chains = some name ↔ ∃ before c after, chains = before ++ c :: after ∧ c.name = name ∧
      name ∈ seen ++ before.map (·.name) ∧ (seen ++ before.map (·.name)).Nodup := by
  induction chains generalizing seen with
  | nil => simp [repeatedName?]
  | cons c rest ih =>
      rw [repeatedName?]
      split
      · next taken =>
          have taken : c.name ∈ seen := by simpa using taken
          rw [Option.some.injEq]
          constructor
          · rintro rfl
            exact ⟨[], c, rest, rfl, rfl, by simpa using taken, by simpa using distinct⟩
          · rintro ⟨before, d, after, split, named, -, apart⟩
            cases before with
            | nil =>
                obtain ⟨rfl, -⟩ := List.cons.inj split
                exact named
            | cons d' before =>
                obtain ⟨rfl, -⟩ := List.cons.inj split
                exact absurd rfl ((List.nodup_append.mp apart).2.2 c.name taken c.name (by simp))
      · next free =>
          have free : c.name ∉ seen := by simpa using free
          have longer : (seen ++ [c.name]).Nodup := by
            simp only [List.nodup_append, List.mem_singleton, forall_eq]
            exact ⟨distinct, List.nodup_singleton _, fun other member same => free (same ▸ member)⟩
          rw [ih longer]
          constructor
          · rintro ⟨before, d, after, rfl, named, occurred, apart⟩
            exact ⟨c :: before, d, after, rfl, named, by simpa using occurred, by simpa using apart⟩
          · rintro ⟨before, d, after, split, named, occurred, apart⟩
            cases before with
            | nil =>
                obtain ⟨rfl, -⟩ := List.cons.inj split
                rw [List.map_nil, List.append_nil] at occurred
                exact absurd (named ▸ occurred) free
            | cons d' before =>
                obtain ⟨rfl, rfl⟩ := List.cons.inj split
                exact ⟨before, d, after, rfl, named, by simpa using occurred, by simpa using apart⟩

theorem duplicate?_eq_some_iff : s.duplicate? = some name ↔ s.FirstRepeated name := by
  rw [duplicate?, repeatedName?_eq_some_iff List.nodup_nil]
  simp only [List.nil_append, FirstRepeated]

theorem duplicate?_eq_none_iff : s.duplicate? = none ↔ (s.chains.map (·.name)).Nodup := by
  constructor
  · exact fun once => (nodup_of_repeatedName? once).1
  · exact fun distinct => repeatedName?_eq_none (by simpa using distinct)

theorem FirstRepeated.repeated (first : s.FirstRepeated name) : ¬(s.chains.map (·.name)).Nodup := by
  rw [← duplicate?_eq_none_iff, duplicate?_eq_some_iff.mpr first]
  exact Option.some_ne_none name

theorem FirstRepeated.unique {other : String} (first : s.FirstRepeated name) (second : s.FirstRepeated other) :
    name = other :=
  Option.some.inj ((duplicate?_eq_some_iff.mpr first).symm.trans (duplicate?_eq_some_iff.mpr second))

/-- Among different names, a chain is found by its own. -/
theorem chain?_eq_some_iff (distinct : (s.chains.map (·.name)).Nodup) :
    s.chain? name = some c ↔ c ∈ s.chains ∧ c.name = name := by
  constructor
  · intro found
    exact ⟨List.mem_of_find?_eq_some found, by simpa using List.find?_some found⟩
  · rintro ⟨member, named⟩
    cases found : s.chain? name with
    | none => simpa [named] using List.find?_eq_none.mp found c member
    | some d =>
        have same : d.name = c.name := (by simpa using List.find?_some found : d.name = name).trans named.symm
        rw [List.inj_on_of_nodup_map distinct (List.mem_of_find?_eq_some found) member same]

theorem add_eq (s : RelayerConfig) (c : ChainConfig) :
    (∃ d ∈ s.chains, d.name = c.name) ∧ s.add c = .error (.duplicateChain c.name) ∨
      (∀ d ∈ s.chains, d.name ≠ c.name) ∧ s.add c = .ok ⟨s.chains ++ [c]⟩ := by
  by_cases free : ∀ d ∈ s.chains, d.name ≠ c.name
  · exact .inr ⟨free, add_eq_ok_iff.mpr ⟨free, rfl⟩⟩
  · refine .inl ⟨by simpa using free, ?_⟩
    cases added : s.add c with
    | ok s' => exact absurd (add_eq_ok_iff.mp added).1 free
    | error e =>
        unfold add at added
        split at added <;> cases added
        rfl

end RelayerConfig

/-! ## Steps -/

/-- What can be done with settings. -/
inductive Edit where
  /-- Take the settings in a file instead. -/
  | load (file : FilePath)
  | add (chain : ChainConfig)
  | save (file : FilePath)
  /-- Begin again without chains. -/
  | reset

namespace Edit

/-- How a step ends, and the settings after it. -/
def apply (s : RelayerConfig) : Edit → Program (Except ConfigError Unit × RelayerConfig)
  | .load file => do
    match ← loadSettings file with
    | .ok loaded => return (.ok (), loaded)
    | .error e => return (.error e, s)
  | .add chain =>
    match s.add chain with
    | .ok added => return (.ok (), added)
    | .error e => return (.error e, s)
  | .save file => do
    let outcome ← saveSettings file s
    return (outcome, s)
  | .reset => return (.ok (), .empty)

/-- All that a step can do. -/
inductive Does (s : RelayerConfig) (w : World) : Edit → Except ConfigError Unit → RelayerConfig → Prop where
  | unread {file : FilePath} {fault : FileFault} (read : w.files.read file = .error fault) :
    Does s w (.load file) (.error (.io file fault)) s
  | unreadable {file : FilePath} {content : List UInt8} {r : Json.Refusal} (read : w.files.read file = .ok content)
    (refused : RelayerConfig.decode content = .error r) : Does s w (.load file) (.error (.parse file r)) s
  | repeated {file : FilePath} {content : List UInt8} {loaded : RelayerConfig} {name : String}
    (read : w.files.read file = .ok content) (decoded : RelayerConfig.decode content = .ok loaded)
    (first : loaded.FirstRepeated name) : Does s w (.load file) (.error (.duplicateChain name)) s
  | loaded {file : FilePath} {content : List UInt8} {loaded : RelayerConfig} (read : w.files.read file = .ok content)
    (decoded : RelayerConfig.decode content = .ok loaded) (distinct : (loaded.chains.map (·.name)).Nodup) :
    Does s w (.load file) (.ok ()) loaded
  | taken {chain : ChainConfig} (taken : ∃ d ∈ s.chains, d.name = chain.name) :
    Does s w (.add chain) (.error (.duplicateChain chain.name)) s
  | added {chain : ChainConfig} (free : ∀ d ∈ s.chains, d.name ≠ chain.name) :
    Does s w (.add chain) (.ok ()) ⟨s.chains ++ [chain]⟩
  | unsaved {file : FilePath} (fault : FileFault) : Does s w (.save file) (.error (.io file fault)) s
  | saved {file : FilePath} : Does s w (.save file) (.ok ()) s
  | reset : Does s w .reset (.ok ()) .empty

theorem run_load (file : FilePath) (s : RelayerConfig) (w : World) : ∃ outcome s',
    World.run ((load file).apply s) w = (.finished (outcome, s'), w) ∧ Does s w (.load file) outcome s' := by
  cases read : w.files.read file with
  | error fault =>
      have asked : World.run (Program.question (.readFile file)) w = (.finished (w.files.read file), w) := rfl
      refine ⟨_, _, ?_, .unread read⟩
      rw [apply, loadSettings, bind_assoc, World.run_bind_finished asked, read]
      rfl
  | ok content =>
      rw [apply, World.run_bind_finished (run_loadSettingsIn file w read), RelayerConfig.ofContent]
      cases decoded : RelayerConfig.decode content with
      | error r => exact ⟨_, _, rfl, .unreadable read decoded⟩
      | ok loaded =>
          cases twice : loaded.duplicate? with
          | some name =>
              simp only [twice]
              exact ⟨_, _, rfl, .repeated read decoded (RelayerConfig.duplicate?_eq_some_iff.mp twice)⟩
          | none =>
              simp only [twice]
              exact ⟨_, _, rfl, .loaded read decoded (RelayerConfig.duplicate?_eq_none_iff.mp twice)⟩

theorem run_add (chain : ChainConfig) (s : RelayerConfig) (w : World) : ∃ outcome s',
    World.run ((add chain).apply s) w = (.finished (outcome, s'), w) ∧ Does s w (.add chain) outcome s' := by
  rw [apply]
  rcases s.add_eq chain with ⟨taken, refused⟩ | ⟨free, added⟩
  · rw [refused]
    exact ⟨_, _, rfl, .taken taken⟩
  · rw [added]
    exact ⟨_, _, rfl, .added free⟩

theorem run_save (file : FilePath) (s : RelayerConfig) (w : World) : ∃ outcome s' w',
    World.run ((save file).apply s) w = (.finished (outcome, s'), w') ∧ Does s w (.save file) outcome s' := by
  rw [apply]
  obtain ⟨t, w', -, -, ⟨fault, ran, -⟩ | ⟨ran, -⟩⟩ := run_saveSettings file s w
  · rw [World.run_bind_finished ran]
    exact ⟨_, _, w', rfl, .unsaved fault⟩
  · rw [World.run_bind_finished ran]
    exact ⟨_, _, w', rfl, .saved⟩

/-- Every step comes to an end. -/
theorem run_apply (edit : Edit) (s : RelayerConfig) (w : World) : ∃ outcome s' w',
    World.run (edit.apply s) w = (.finished (outcome, s'), w') ∧ Does s w edit outcome s' := by
  cases edit with
  | load file =>
      obtain ⟨outcome, s', ran, does⟩ := run_load file s w
      exact ⟨outcome, s', w, ran, does⟩
  | add chain =>
      obtain ⟨outcome, s', ran, does⟩ := run_add chain s w
      exact ⟨outcome, s', w, ran, does⟩
  | save file => exact run_save file s w
  | reset => exact ⟨_, _, w, rfl, .reset⟩

section

variable {edit : Edit} {s s' : RelayerConfig} {w w' : World} {outcome : Except ConfigError Unit}

theorem does_of_run (ran : World.run (edit.apply s) w = (.finished (outcome, s'), w')) : Does s w edit outcome s' := by
  obtain ⟨outcome', s'', w'', ran', does⟩ := run_apply edit s w
  cases ran.symm.trans ran'
  exact does

theorem Does.kept {e : ConfigError} (does : Does s w edit (.error e) s') : s' = s := by
  cases does <;> rfl

theorem Does.distinct (does : Does s w edit outcome s') (distinct : (s.chains.map (·.name)).Nodup) :
    (s'.chains.map (·.name)).Nodup := by
  cases does with
  | unread | unreadable | repeated | taken | unsaved | saved => exact distinct
  | loaded read decoded distinct => exact distinct
  | reset => exact List.nodup_nil
  | @added chain free =>
      simp only [List.map_append, List.map_cons, List.map_nil, List.nodup_append, List.mem_singleton, forall_eq,
        List.forall_mem_map]
      exact ⟨distinct, List.nodup_singleton _, free⟩

/-- What comes of settings that can be decoded. -/
theorem Does.of_decoded {file : FilePath} {content : List UInt8} {loaded : RelayerConfig}
    (does : Does s w (.load file) outcome s') (read : w.files.read file = .ok content)
    (decoded : RelayerConfig.decode content = .ok loaded) :
    (∃ name, loaded.FirstRepeated name ∧ outcome = .error (.duplicateChain name)) ∨
      (loaded.chains.map (·.name)).Nodup ∧ outcome = .ok () ∧ s' = loaded := by
  cases does with
  | unread read' => cases read.symm.trans read'
  | unreadable read' refused =>
      cases read.symm.trans read'
      cases decoded.symm.trans refused
  | repeated read' decoded' first =>
      cases read.symm.trans read'
      cases decoded.symm.trans decoded'
      exact .inl ⟨_, first, rfl⟩
  | loaded read' decoded' distinct =>
      cases read.symm.trans read'
      cases decoded.symm.trans decoded'
      exact .inr ⟨distinct, rfl, rfl⟩

end

end Edit

/-- Steps from settings without chains on, each in surroundings of its own, and the settings in the end. -/
inductive Editing : List (Edit × World) → RelayerConfig → Prop where
  | start : Editing [] .empty
  | step {steps : List (Edit × World)} {edit : Edit} {s s' : RelayerConfig} {w w' : World}
    {outcome : Except ConfigError Unit} (before : Editing steps s)
    (ran : World.run (edit.apply s) w = (.finished (outcome, s'), w')) : Editing (steps ++ [(edit, w)]) s'

namespace Editing

variable {steps : List (Edit × World)} {s : RelayerConfig}

theorem distinct (editing : Editing steps s) : (s.chains.map (·.name)).Nodup := by
  induction editing with
  | start => exact List.nodup_nil
  | step before ran ih => exact (Edit.does_of_run ran).distinct ih

/-- All chains have names of their own after any steps, by which they are found. A step that fails changes
nothing. Settings from a file are refused for the earliest chain whose name has occurred, and only then if they
can be decoded; a chain is refused if its name is taken, and else it comes last. -/
theorem stays_distinct (editing : Editing steps s) :
    (s.chains.map (·.name)).Nodup ∧ (∀ name c, s.chain? name = some c ↔ c ∈ s.chains ∧ c.name = name) ∧
      ∀ (edit : Edit) (w : World), ∃ outcome s' w', World.run (edit.apply s) w = (.finished (outcome, s'), w') ∧
        (∀ e, outcome = .error e → s' = s) ∧
        (∀ file content loaded, edit = .load file → w.files.read file = .ok content →
          RelayerConfig.decode content = .ok loaded →
          ((∃ name, outcome = .error (.duplicateChain name)) ↔ ¬(loaded.chains.map (·.name)).Nodup) ∧
            (∀ name, outcome = .error (.duplicateChain name) ↔ loaded.FirstRepeated name) ∧
            ((loaded.chains.map (·.name)).Nodup → outcome = .ok () ∧ s' = loaded)) ∧
        ∀ chain, edit = .add chain →
          ((∃ name, outcome = .error (.duplicateChain name)) ↔ ∃ c ∈ s.chains, c.name = chain.name) ∧
            ((∀ c ∈ s.chains, c.name ≠ chain.name) → outcome = .ok () ∧ s' = ⟨s.chains ++ [chain]⟩) := by
  refine ⟨editing.distinct, fun name c => RelayerConfig.chain?_eq_some_iff editing.distinct, fun edit w => ?_⟩
  obtain ⟨outcome, s', w', ran, does⟩ := edit.run_apply s w
  refine ⟨outcome, s', w', ran, ?_, ?_, ?_⟩
  · rintro e rfl
    exact does.kept
  · rintro file content loaded rfl read decoded
    obtain ⟨name, first, rfl⟩ | ⟨distinct, rfl, replaced⟩ := does.of_decoded read decoded
    · refine ⟨⟨fun _ => first.repeated, fun _ => ⟨name, rfl⟩⟩, fun other => ?_, ?_⟩
      · rw [Except.error.injEq, ConfigError.duplicateChain.injEq]
        exact ⟨fun same => same ▸ first, first.unique⟩
      · exact fun distinct => absurd distinct first.repeated
    · refine ⟨⟨nofun, fun twice => absurd distinct twice⟩, ?_, fun _ => ⟨rfl, replaced⟩⟩
      exact fun name => ⟨nofun, fun first => absurd distinct first.repeated⟩
  · rintro chain rfl
    cases does with
    | taken taken => simpa using taken
    | added free => simpa using free

/-- Surroundings with a file that names a chain twice. -/
def twiceWorld : World :=
  .holding ⟨[(FilePath.ofString "c", .file (RelayerConfig.encode ⟨[plainChain, plainChain]⟩))], []⟩

theorem stays_distinct_twice :
    ∃ s, Editing [(.add plainChain, twiceWorld)] s ∧
      (∃ s' w', World.run (Edit.apply s (.load (FilePath.ofString "c"))) twiceWorld =
        (.finished (.error (.duplicateChain "a"), s'), w') ∧ s' = s) ∧
      ∃ name s' w', World.run (Edit.apply s (.add plainChain)) twiceWorld =
        (.finished (.error (.duplicateChain name), s'), w') ∧ s' = s := by
  have added : World.run (Edit.apply .empty (.add plainChain)) twiceWorld =
      (.finished (.ok (), ⟨[plainChain]⟩), twiceWorld) := rfl
  have editing : Editing [(.add plainChain, twiceWorld)] ⟨[plainChain]⟩ := .step .start added
  obtain ⟨-, -, each⟩ := stays_distinct editing
  refine ⟨⟨[plainChain]⟩, editing, ?_, ?_⟩
  · obtain ⟨outcome, s', w', ran, kept, load, -⟩ := each (.load (FilePath.ofString "c")) twiceWorld
    have fits : ∀ c ∈ [plainChain, plainChain], c.Each (·.config.Fits RelayerConfig.configRoom) := by
      simp only [List.mem_cons, List.not_mem_nil, or_false, or_self, forall_eq]
      exact ⟨.null, nofun, .null⟩
    have first : RelayerConfig.FirstRepeated ⟨[plainChain, plainChain]⟩ "a" :=
      ⟨[plainChain], plainChain, [], rfl, rfl, List.mem_singleton_self _, List.nodup_singleton _⟩
    have refused := (load _ _ _ rfl rfl (RelayerConfig.decode_encode fits)).2.1 "a" |>.mpr first
    exact ⟨s', w', refused ▸ ran, kept _ refused⟩
  · obtain ⟨outcome, s', w', ran, kept, -, add⟩ := each (.add plainChain) twiceWorld
    obtain ⟨name, refused⟩ := (add _ rfl).1.mpr ⟨plainChain, List.mem_singleton_self _, rfl⟩
    exact ⟨name, s', w', refused ▸ ran, kept _ refused⟩

end Editing

end ChainRelay
