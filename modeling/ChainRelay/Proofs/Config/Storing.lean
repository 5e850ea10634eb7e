import ChainRelay.Commands.Settings
import ChainRelay.Proofs.Commands.Adding
import ChainRelay.Proofs.Json.Nesting

/-! # Settings that are saved and loaded

Settings without floating point numbers that are not nested too deep are loaded as they were saved. What a
settings file holds is such a settings again, so loading and saving it once more changes nothing.
-/

namespace ChainRelay

open Json (Value)

/-! ## How deep a document is -/

theorem BackendConfig.depth_toValue_le_iff {c : BackendConfig} {room : Nat} :
    c.toValue.depth ≤ room + 1 ↔ c.config.depth ≤ room := by
  rw [toValue, Value.depth_object_le_iff, List.forall_mem_cons, List.forall_mem_singleton]
  simp [Value.depth]

theorem ChainConfig.depth_toValue_le_iff {c : ChainConfig} {room : Nat} :
    c.toValue.depth ≤ room + 2 ↔ c.Each (·.config.depth ≤ room) := by
  obtain ⟨name, enabled, chain, signer, prover⟩ := c
  rw [toValue, Value.depth_object_le_iff, Commands.each_iff]
  cases signer with
  | none => simp [Value.depth, BackendConfig.depth_toValue_le_iff, Commands.backendsOf]
  | some s => simp [Value.depth, BackendConfig.depth_toValue_le_iff, Commands.backendsOf]

theorem RelayerConfig.depth_toValue_le_iff {s : RelayerConfig} {room : Nat} :
    s.toValue.depth ≤ room + 4 ↔ ∀ c ∈ s.chains, c.Each (·.config.depth ≤ room) := by
  rw [toValue, Value.depth_object_le_iff, List.forall_mem_singleton, Value.depth_array_le_iff, List.forall_mem_map]
  simp only [ChainConfig.depth_toValue_le_iff]

/-! ## What can be stored -/

namespace RelayerConfig

/-- The settings name each chain once, hold whole numbers only, and open at most 127 containers inside each
other. That the members of objects are in order is true of all values that come from a text. -/
structure Storable (s : RelayerConfig) : Prop where
  distinct : (s.chains.map (·.name)).Nodup
  whole : ∀ c ∈ s.chains, c.Each (·.config.Whole)
  sorted : ∀ c ∈ s.chains, c.Each (·.config.Sorted)
  shallow : s.toValue.depth ≤ Json.depthLimit

theorem Storable.fits {s : RelayerConfig} (storable : s.Storable) :
    ∀ c ∈ s.chains, c.Each (·.config.Fits configRoom) := by
  intro c member
  have shallow : c.Each (·.config.depth ≤ configRoom) := depth_toValue_le_iff.mp storable.shallow c member
  have whole := storable.whole c member
  have sorted := storable.sorted c member
  rw [Commands.each_iff] at shallow whole sorted ⊢
  exact fun entry inside => (whole entry inside).fits (sorted entry inside) (shallow entry inside)

/-- Settings that can be stored are loaded as they were saved. -/
theorem Storable.ofContent {s : RelayerConfig} (storable : s.Storable) (file : FilePath) :
    ofContent file s.encode = .ok s := by
  have same : repeatedName? [] s.chains = none := repeatedName?_eq_none storable.distinct
  simp only [RelayerConfig.ofContent, decode_encode storable.fits, duplicate?, same]

theorem nodup_of_repeatedName? {seen : List String} {chains : List ChainConfig}
    (none : repeatedName? seen chains = none) :
    (chains.map (·.name)).Nodup ∧ ∀ c ∈ chains, c.name ∉ seen := by
  induction chains generalizing seen with
  | nil => exact ⟨List.nodup_nil, List.forall_mem_nil _⟩
  | cons c rest ih =>
      rw [repeatedName?] at none
      split at none
      · cases none
      · rename_i new
        obtain ⟨distinct, apart⟩ := ih none
        simp only [List.mem_append, List.mem_singleton, not_or] at apart
        have free : c.name ∉ rest.map (·.name) := by
          intro member
          obtain ⟨d, inside, same⟩ := List.mem_map.mp member
          exact (apart d inside).2 same
        refine ⟨List.nodup_cons.mpr ⟨free, distinct⟩, List.forall_mem_cons.mpr ⟨by simpa using new, ?_⟩⟩
        exact fun d inside => (apart d inside).1

theorem ofContent_eq_ok_iff {file : FilePath} {content : List UInt8} {s : RelayerConfig} :
    RelayerConfig.ofContent file content = .ok s ↔ decode content = .ok s ∧ s.duplicate? = none := by
  unfold RelayerConfig.ofContent
  cases decode content with
  | error r => simp
  | ok s' =>
      dsimp only
      cases twice : s'.duplicate? with
      | none =>
          constructor
          · rintro ⟨⟩
            exact ⟨rfl, twice⟩
          · rintro ⟨⟨⟩, -⟩
            rfl
      | some name =>
          constructor
          · nofun
          · rintro ⟨⟨⟩, once⟩
            cases twice.symm.trans once

/-- What is known of settings that have been loaded. -/
theorem ofContent_gives {file : FilePath} {content : List UInt8} {s : RelayerConfig}
    (held : RelayerConfig.ofContent file content = .ok s) :
    (s.chains.map (·.name)).Nodup ∧
      ∀ c ∈ s.chains, c.Each fun b => b.config.Sorted ∧ b.config.depth ≤ configRoom := by
  obtain ⟨decoded, once⟩ := ofContent_eq_ok_iff.mp held
  obtain ⟨rest, read⟩ := Json.runReader_eq_ok_iff.mp decoded
  refine ⟨(nodup_of_repeatedName? once).1, ?_⟩
  exact shape_gives ⟨.null, Nat.zero_le _⟩ (Json.readValue_gives_sorted configRoom) content s rest read

/-- Settings without floating point numbers that have been loaded can be stored. -/
theorem storable_of_ofContent {file : FilePath} {content : List UInt8} {s : RelayerConfig}
    (held : RelayerConfig.ofContent file content = .ok s) (whole : ∀ c ∈ s.chains, c.Each (·.config.Whole)) :
    s.Storable := by
  obtain ⟨distinct, each⟩ := ofContent_gives held
  refine ⟨distinct, whole, fun c member => ?_, depth_toValue_le_iff.mpr fun c member => ?_⟩
  · exact (each c member).imp fun _ holds => holds.1
  · exact (each c member).imp fun _ holds => holds.2

end RelayerConfig

theorem ChainConfig.ofContent_eq_ok_iff {file : FilePath} {content : List UInt8} {c : ChainConfig} :
    ChainConfig.ofContent file content = .ok c ↔ ChainConfig.decode content = .ok c := by
  unfold ChainConfig.ofContent
  cases ChainConfig.decode content with
  | error r => simp
  | ok c' => rw [Except.ok.injEq, Except.ok.injEq]

/-- The settings of a chain are read from their text. -/
theorem ChainConfig.ofContent_pretty {c : ChainConfig} (fits : c.Each (·.config.Fits 125)) (file : FilePath) :
    ChainConfig.ofContent file (utf8Bytes c.toValue.pretty) = .ok c := by
  have reads : (ChainConfig.shape.read 127).Reads c.toValue (c.mapConfigs id) :=
    ChainConfig.shape_reads (fits.imp fun _ fits => fits.reads)
  have read := reads [] _ [] Json.blank_nil (c.toValue.spells_prettyAt 0) nofun
  rw [List.nil_append, List.append_nil, ChainConfig.mapConfigs_id] at read
  exact ofContent_eq_ok_iff.mpr (Json.runReader_eq_ok_iff.mpr ⟨[], read⟩)

/-! ## Runs -/

/-- `config show` prints the settings as they are saved. -/
theorem run_showSettings {ctx : Context} {w : World} {s : RelayerConfig}
    (settles : w.files.Settles (settingsPath (ctx.homeIn w)) s) :
    ∃ w' text, World.run (Commands.showSettings ctx).run w = (.finished (.ok ()), w') ∧
      w'.printed = text :: w.printed ∧ utf8Bytes text = s.encode := by
  have told : World.run (liftM (Program.printLine s.toValue.pretty) : Attempt Unit).run w =
      (.finished (.ok ()), (w.answer (.print (s.toValue.pretty ++ "\n"))).2) := rfl
  refine ⟨(w.answer (.print (s.toValue.pretty ++ "\n"))).2, s.toValue.pretty ++ "\n", ?_, ?_, rfl⟩
  · rw [Commands.showSettings, Attempt.run_bind_ok (run_loadSettings_of_settles settles)]
    exact told
  · exact World.printed_afterPrint _ _

/-- Load the settings in a file and save them there. -/
def resaveSettings (file : FilePath) : Program (Except ConfigError Unit) := do
  match ← loadSettings file with
  | .ok s => saveSettings file s
  | .error e => return .error e

theorem run_resaveSettings {file : FilePath} {s : RelayerConfig} {w : World} (settles : w.files.Settles file s) :
    ∃ w', World.run (resaveSettings file) w = (.finished (.ok ()), w') ∧ w'.files.read file = .ok s.encode := by
  obtain ⟨content, read, held⟩ := settles
  obtain ⟨t, saved, wrote⟩ := run_saveSettings_of_read read s
  refine ⟨{ w with files := t }, ?_, saved⟩
  rw [resaveSettings, World.run_bind_finished (run_loadSettingsIn file w read), held]
  exact wrote

/-- What has been saved is read again, if the folder that relative paths start from is there. -/
theorem run_saveSettings_rereads (file : FilePath) (s : RelayerConfig) {w : World}
    (standing : (w.files.root.inside? w.files.here).isSome) :
    (∃ fault w', World.run (saveSettings file s) w = (.finished (.error (.io file fault)), w')) ∨
      ∃ w', World.run (saveSettings file s) w = (.finished (.ok ()), w') ∧ w'.files.read file = .ok s.encode := by
  obtain ⟨t, w', same, keeps, ⟨fault, failed, -⟩ | ⟨saved, written⟩⟩ := run_saveSettings file s w
  · exact .inl ⟨fault, w', failed⟩
  · have there : (t.root.inside? (t.start file)).isSome := by
      unfold FileTree.start
      split
      · rfl
      · rw [same.here]
        exact keeps _ standing
    exact .inr ⟨w', saved, FileTree.read_of_write there written⟩

/-- Settings are loaded as they were saved, `config show` prints the file in which they were saved, and to
load and save settings from any file a second time changes nothing. -/
theorem settings_survive (file : FilePath) (w : World) :
    (∀ s : RelayerConfig, s.Storable → (w.files.root.inside? w.files.here).isSome →
      (∃ fault w', World.run (saveSettings file s) w = (.finished (.error (.io file fault)), w')) ∨
        ∃ w', World.run (saveSettings file s) w = (.finished (.ok ()), w') ∧
          w'.files.read file = .ok s.encode ∧ World.run (loadSettings file) w' = (.finished (.ok s), w')) ∧
      (∀ (s : RelayerConfig) (ctx : Context), s.Storable → settingsPath (ctx.homeIn w) = file →
        w.files.read file = .ok s.encode →
        ∃ w' text, World.run (Commands.showSettings ctx).run w = (.finished (.ok ()), w') ∧
          w'.printed = text :: w.printed ∧ utf8Bytes text = s.encode) ∧
      ∀ (s : RelayerConfig) (content : List UInt8), w.files.read file = .ok content →
        RelayerConfig.ofContent file content = .ok s → (∀ c ∈ s.chains, c.Each (·.config.Whole)) →
        ∃ w' w'', World.run (resaveSettings file) w = (.finished (.ok ()), w') ∧
          World.run (resaveSettings file) w' = (.finished (.ok ()), w'') ∧
          w'.files.read file = .ok s.encode ∧ w''.files.read file = w'.files.read file := by
  refine ⟨?_, ?_, ?_⟩
  · intro s storable standing
    rcases run_saveSettings_rereads file s standing with failed | ⟨w', saved, read⟩
    · exact .inl failed
    · refine .inr ⟨w', saved, read, ?_⟩
      rw [run_loadSettingsIn file w' read, storable.ofContent]
  · rintro s ctx storable rfl read
    exact run_showSettings ⟨s.encode, read, storable.ofContent _⟩
  · intro s content read held whole
    have storable := RelayerConfig.storable_of_ofContent held whole
    obtain ⟨w', resaved, read'⟩ := run_resaveSettings ⟨content, read, held⟩
    obtain ⟨w'', again, read''⟩ := run_resaveSettings ⟨s.encode, read', storable.ofContent file⟩
    exact ⟨w', w'', resaved, again, read', read''.trans read'.symm⟩

/-- The settings of one chain that is disabled and has no signer. -/
def disabledChain : RelayerConfig :=
  ⟨[⟨"a", false, ⟨"m", .object [("n", .number (.int (-1) (by decide)))]⟩, none, ⟨"m", .null⟩⟩]⟩

theorem storable_disabledChain : disabledChain.Storable := by
  refine ⟨by decide, ?_, ?_, by decide⟩
  · rintro c (_ | ⟨_, ⟨⟩⟩)
    refine ⟨.object ?_, nofun, .null⟩
    rintro m (_ | ⟨_, ⟨⟩⟩)
    exact .int
  · rintro c (_ | ⟨_, ⟨⟩⟩)
    refine ⟨.object (List.pairwise_singleton _ _) ?_, nofun, .null⟩
    rintro m (_ | ⟨_, ⟨⟩⟩)
    exact .number

theorem settings_survive_disabled :
    ∃ (file : FilePath) (w : World), disabledChain.Storable ∧ (w.files.root.inside? w.files.here).isSome ∧
      ∃ w', World.run (saveSettings file disabledChain) w = (.finished (.ok ()), w') ∧
        World.run (loadSettings file) w' = (.finished (.ok disabledChain), w') := by
  let w := World.holding ⟨[(FilePath.ofString "x", .file [])], []⟩
  have read : w.files.read (FilePath.ofString "x") = .ok [] := rfl
  obtain ⟨t, -, wrote⟩ := run_saveSettings_of_read read disabledChain
  refine ⟨FilePath.ofString "x", w, storable_disabledChain, rfl, ?_⟩
  rcases (settings_survive (FilePath.ofString "x") w).1 disabledChain storable_disabledChain rfl with
    ⟨fault, w', failed⟩ | ⟨w', saved, -, loaded⟩
  · cases failed.symm.trans wrote
  · exact ⟨w', saved, loaded⟩

end ChainRelay
