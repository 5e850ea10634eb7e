import ChainRelay.Proofs.Config.Storing
import ChainRelay.Proofs.Json.Room

/-! # Loading what has been added

A definition may be nested as deep as a document, but in the settings it stands two containers deeper. So
what `chains add-dir` has saved can be loaded exactly if no configuration is nested too deep for that.
-/

namespace ChainRelay

open Json (Value)
open Json.Reader (within_bind within_refl)

/-! ## More room -/

theorem BackendConfig.shape_within (room extra : Nat) : (shape.read room).Within (shape.read (room + extra)) := by
  refine Json.Shape.read_within ?_ room
  intro slot member room
  simp only [shape, List.mem_cons, List.not_mem_nil, or_false] at member
  rcases member with rfl | rfl
  · exact within_refl _
  · exact (Json.readValue_within room extra).bind fun _ => within_refl _

theorem ChainConfig.shape_within (room extra : Nat) : (shape.read room).Within (shape.read (room + extra)) := by
  refine Json.Shape.read_within ?_ room
  intro slot member room
  have backend := BackendConfig.shape_within room extra
  simp only [shape, List.mem_cons, List.not_mem_nil, or_false] at member
  rcases member with rfl | rfl | rfl | rfl | rfl
  · exact within_refl _
  · exact within_refl _
  · exact backend.bind fun _ => within_refl _
  · exact (Json.readOptional_within backend).bind fun _ => within_refl _
  · exact backend.bind fun _ => within_refl _

theorem ChainConfig.Each.of_mapConfigs {f : Value → Value} {P : BackendConfig → Prop} {c : ChainConfig}
    (each : (c.mapConfigs f).Each P) : c.Each fun b => P (b.mapConfig f) := by
  refine ⟨each.chain, fun s same => each.signer (s.mapConfig f) ?_, each.prover⟩
  rw [mapConfigs, same]
  rfl

namespace RelayerConfig

theorem shape_within (room extra : Nat) : (shape.read room).Within (shape.read (room + extra)) := by
  refine Json.Shape.read_within ?_ room
  intro slot member room
  simp only [shape, List.mem_singleton] at member
  subst member
  exact (Json.readList_within (fun inner => ChainConfig.shape_within inner extra) room).bind fun _ => within_refl _

/-! ## Saved settings -/

variable {s : RelayerConfig}

theorem names_mapConfigs (f : Value → Value) (s : RelayerConfig) :
    (s.mapConfigs f).chains.map (·.name) = s.chains.map (·.name) := by
  simp [mapConfigs, ChainConfig.mapConfigs]

theorem read_back (sorted : ∀ c ∈ s.chains, c.Each (·.config.Sorted))
    (legible : ∀ c ∈ s.chains, c.Each (·.config.Legible)) {room : Nat}
    (shallow : ∀ c ∈ s.chains, c.Each (·.config.depth ≤ room)) :
    shape.read (room + 4) s.encode = .ok (s.mapConfigs Value.back, [0x0A]) := by
  refine read_encode fun c member => ?_
  have sorted := sorted c member
  have legible := legible c member
  have shallow := shallow c member
  rw [Commands.each_iff] at sorted legible shallow ⊢
  exact fun entry inside => (legible entry inside).reads (sorted entry inside) (shallow entry inside)

/-- Saved settings with legible numbers can be loaded exactly if no configuration is nested too deep. -/
theorem ofContent_encode_iff (distinct : (s.chains.map (·.name)).Nodup)
    (sorted : ∀ c ∈ s.chains, c.Each (·.config.Sorted)) (legible : ∀ c ∈ s.chains, c.Each (·.config.Legible))
    (file : FilePath) :
    (∃ s', RelayerConfig.ofContent file s.encode = .ok s') ↔
      ∀ c ∈ s.chains, c.Each (·.config.depth ≤ configRoom) := by
  constructor
  · rintro ⟨s', held⟩
    obtain ⟨decoded, -⟩ := ofContent_eq_ok_iff.mp held
    obtain ⟨rest, read⟩ := Json.runReader_eq_ok_iff.mp decoded
    -- With room for the whole document, its own text is read; with less room, nothing else can be.
    have deep : ∀ c ∈ s.chains, c.Each (·.config.depth ≤ configRoom + s.toValue.depth) := by
      have any := depth_toValue_le_iff.mp (Nat.le_add_right s.toValue.depth 4)
      exact fun c member => (any c member).imp fun _ here => Nat.le_trans here (Nat.le_add_left _ _)
    have room : Json.depthLimit + s.toValue.depth = configRoom + s.toValue.depth + 4 := by
      have limit : Json.depthLimit = configRoom + 4 := rfl
      omega
    have more := shape_within Json.depthLimit s.toValue.depth _ _ read
    rw [room, read_back sorted legible deep, Except.ok.injEq, Prod.mk.injEq] at more
    have each := shape_gives ⟨.null, Nat.zero_le _⟩ (Json.readValue_gives_sorted configRoom) s.encode s' rest read
    rw [← more.1] at each
    intro c member
    refine (each (c.mapConfigs Value.back) (List.mem_map_of_mem member)).of_mapConfigs.imp fun b holds => ?_
    rw [← b.config.depth_back]
    exact holds.2
  · intro shallow
    have read := read_back sorted legible shallow
    have room : configRoom + 4 = Json.depthLimit := rfl
    have once : (s.mapConfigs Value.back).duplicate? = none := by
      refine repeatedName?_eq_none ?_
      rwa [List.nil_append, names_mapConfigs]
    rw [room] at read
    refine ⟨s.mapConfigs Value.back, ofContent_eq_ok_iff.mpr ⟨?_, once⟩⟩
    simp only [decode, Json.runReader, read]

end RelayerConfig

/-! ## Added definitions -/

theorem FileTree.Defines.sorted {t : FileTree} {file : FilePath} {d : ChainConfig} (defines : t.Defines file d) :
    d.Each (·.config.Sorted) := by
  obtain ⟨content, -, held⟩ := defines
  obtain ⟨rest, read⟩ := Json.runReader_eq_ok_iff.mp (ChainConfig.ofContent_eq_ok_iff.mp held)
  have each := ChainConfig.shape_gives ⟨.null, Nat.zero_le _⟩ (Json.readValue_gives_sorted 125) content d rest read
  exact each.imp fun _ holds => holds.1

namespace Commands

variable {ctx : Context} {w : World}

/-- What the settings with the added definitions are like. -/
theorem Addition.joined {folder : FilePath} {old : RelayerConfig} {names : List RawText} {defs : List ChainConfig}
    (addition : Addition ctx w folder old names defs) :
    ((old.chains ++ defs).map (·.name)).Nodup ∧ (∀ c ∈ old.chains ++ defs, c.Each (·.config.Sorted)) ∧
      ∀ c ∈ old.chains, c.Each (·.config.depth ≤ RelayerConfig.configRoom) := by
  obtain ⟨content, -, held⟩ := addition.loads
  obtain ⟨distinct, each⟩ := RelayerConfig.ofContent_gives held
  refine ⟨?_, ?_, fun c member => (each c member).imp fun _ holds => holds.2⟩
  · rw [List.map_append, List.nodup_append]
    refine ⟨distinct, addition.acceptable.distinct, ?_⟩
    rintro _ before _ behind rfl
    obtain ⟨c, inside, same⟩ := List.mem_map.mp before
    obtain ⟨d, member, same'⟩ := List.mem_map.mp behind
    exact addition.acceptable.new d member c inside (same.trans same'.symm)
  · rw [List.forall_mem_append]
    refine ⟨fun c member => (each c member).imp fun _ holds => holds.1, fun d member => ?_⟩
    obtain ⟨file, defines⟩ := addition.acceptable.defined d member
    exact defines.sorted

end Commands

/-! ## A definition that is nested too deep -/

/-- Lists inside each other, with nothing inside. -/
def nested : Nat → Value
  | 0 => .null
  | n + 1 => .array [nested n]

theorem depth_nested (n : Nat) : (nested n).depth = n := by
  induction n with
  | zero => rfl
  | succ n ih =>
      rw [nested, Value.depth, Value.depthOfItems, Value.depthOfItems, ih]
      omega

theorem whole_nested (n : Nat) : (nested n).Whole := by
  induction n with
  | zero => exact .null
  | succ n ih => exact .array (List.forall_mem_singleton.mpr ih)

theorem sorted_nested (n : Nat) : (nested n).Sorted := by
  induction n with
  | zero => exact .null
  | succ n ih => exact .array (List.forall_mem_singleton.mpr ih)

/-- A module that takes any value in its only field. -/
def openModule : Provider where
  id := "m"
  roles := [.chain, .prover]
  description := ""
  schema := fun _ => .ok [⟨"x", .any, "", .optional .null⟩]
  factory := fun role => .error (.unsupportedRole "m" role)

/-- A chain whose configuration is nested as deep as a definition may be. -/
def deepChain : ChainConfig where
  name := "a"
  enabled := true
  chain := ⟨"m", .object [("x", nested 124)]⟩
  signer := none
  prover := ⟨"m", .null⟩

/-- A command line that asks to add the definitions in a folder. -/
def addDeep : Context where
  matched :=
    [⟨"dir", .path, .commandLine, .values [FilePath.ofString "d"]⟩,
      ⟨homeOption, .path, .commandLine, .values [FilePath.ofString "h"]⟩]
  registry := ⟨[openModule], Registry.enter "m" 0 openModule.roles []⟩

/-- Settings without chains, and a folder that holds the definition of a deep chain. -/
def deepWorld : World :=
  .holding
    { root :=
        [(FilePath.ofString "h", .folder [(FilePath.ofString "config",
            .folder [(FilePath.ofString "config.json", .file RelayerConfig.empty.encode)])]),
          (FilePath.ofString "d", .folder [(FilePath.ofString "a.json", .file (utf8Bytes deepChain.toValue.pretty))])]
      here := [] }

theorem fits_deepChain : deepChain.Each (·.config.Fits 125) := by
  refine ⟨.object (List.pairwise_singleton _ _) (List.forall_mem_singleton.mpr ?_), nofun, .null⟩
  exact (whole_nested 124).fits (sorted_nested 124) (Nat.le_of_eq (depth_nested 124))

theorem legible_deepChain : deepChain.Each (·.config.Legible) := by
  refine ⟨.object (List.forall_mem_singleton.mpr ?_), nofun, .null⟩
  exact (whole_nested 124).legible

theorem defines_deepChain : deepWorld.files.Defines (FilePath.join (FilePath.ofString "d") (FilePath.ofString "a.json"))
    deepChain :=
  ⟨_, rfl, ChainConfig.ofContent_pretty fits_deepChain _⟩

theorem storable_empty : RelayerConfig.empty.Storable :=
  ⟨List.nodup_nil, List.forall_mem_nil _, List.forall_mem_nil _, by decide⟩

theorem addition_deep : Commands.Addition addDeep deepWorld (FilePath.ofString "d") .empty [FilePath.ofString "a.json"]
    [deepChain] := by
  have named : Commands.IsDefinition (FilePath.ofString "a.json") := ⟨[.char 'a'], List.cons_ne_nil _ _, rfl⟩
  have chosen : [FilePath.ofString "a.json"].filter Commands.IsDefinition = [FilePath.ofString "a.json"] :=
    List.filter_cons_of_pos (decide_eq_true named)
  have settles : deepWorld.files.Settles (settingsPath (addDeep.homeIn deepWorld)) .empty :=
    ⟨_, rfl, storable_empty.ofContent _⟩
  refine ⟨rfl, settles, ⟨[FilePath.ofString "a.json"], rfl, ?_⟩, List.cons_ne_nil _ _, ?_⟩
  · exact ⟨.of_eq chosen.symm, List.pairwise_singleton _ _⟩
  · refine ⟨.cons defines_deepChain .nil, ?_, by decide, ?_⟩
    · rw [List.forall_mem_singleton]
      rintro entry (_ | ⟨_, _ | ⟨_, ⟨⟩⟩⟩)
      · rfl
      · rfl
    · exact List.forall_mem_singleton.mpr (List.forall_mem_nil _)

theorem addFolder_deep : ∃ w', World.run (Commands.addFolder addDeep).run deepWorld = (.finished (.ok ()), w') ∧
    w'.files.read (settingsPath (addDeep.homeIn deepWorld)) = .ok (RelayerConfig.encode ⟨[deepChain]⟩) := by
  obtain ⟨r, w', ran, adds⟩ := Commands.run_addFolder addDeep deepWorld
  cases adds with
  | refused none => exact absurd addition_deep (none _ _ _ _)
  | added addition saved =>
      obtain ⟨rfl, rfl⟩ := addition_deep.unique (by rintro _ ⟨⟩; exact List.nodup_singleton _) addition
      exact ⟨w', ran, saved⟩

/-! ## What can be loaded again -/

namespace Commands

/-- What `chains add-dir` has saved can be loaded exactly if no added configuration opens more than 123
containers inside each other, four less than a document may. -/
theorem addFolder_reloads_iff {ctx : Context} {w w' : World}
    (ended : World.run (addFolder ctx).run w = (.finished (.ok ()), w')) :
    ∃ folder old names defs, Addition ctx w folder old names defs ∧
      w'.files.read (settingsPath (ctx.homeIn w)) = .ok (RelayerConfig.encode ⟨old.chains ++ defs⟩) ∧
      ((∀ c ∈ old.chains ++ defs, c.Each (·.config.Legible)) →
        ((∃ s, w'.files.Settles (settingsPath (ctx.homeIn w)) s) ↔
          ∀ d ∈ defs, d.Each (·.config.depth ≤ RelayerConfig.configRoom))) := by
  obtain ⟨r, w'', ran, adds⟩ := run_addFolder ctx w
  cases ended.symm.trans ran
  cases adds with
  | @added folder old names defs _ addition saved =>
      refine ⟨folder, old, names, defs, addition, saved, fun legible => ?_⟩
      obtain ⟨distinct, sorted, shallow⟩ := addition.joined
      have loads : (∃ s, w'.files.Settles (settingsPath (ctx.homeIn w)) s) ↔
          ∃ s, RelayerConfig.ofContent (settingsPath (ctx.homeIn w)) (RelayerConfig.encode ⟨old.chains ++ defs⟩) =
            .ok s := by
        simp [FileTree.Settles, saved]
      rw [loads, RelayerConfig.ofContent_encode_iff distinct sorted legible]
      dsimp only
      rw [List.forall_mem_append]
      exact ⟨fun all => all.2, fun new => ⟨shallow, new⟩⟩

theorem addFolder_reloads_iff_deep :
    ∃ w', World.run (addFolder addDeep).run deepWorld = (.finished (.ok ()), w') ∧
      ∃ folder old names defs, Addition addDeep deepWorld folder old names defs ∧
        w'.files.read (settingsPath (addDeep.homeIn deepWorld)) = .ok (RelayerConfig.encode ⟨old.chains ++ defs⟩) ∧
        ((∀ c ∈ old.chains ++ defs, c.Each (·.config.Legible)) →
          ((∃ s, w'.files.Settles (settingsPath (addDeep.homeIn deepWorld)) s) ↔
            ∀ d ∈ defs, d.Each (·.config.depth ≤ RelayerConfig.configRoom))) := by
  obtain ⟨w', ended, -⟩ := addFolder_deep
  exact ⟨w', ended, addFolder_reloads_iff ended⟩

/-- What has been saved after a success cannot always be loaded. -/
theorem addFolder_not_reloads :
    Registry.ofProviders [openModule] = .ok addDeep.registry ∧
      ∃ w', World.run (addFolder addDeep).run deepWorld = (.finished (.ok ()), w') ∧
        ¬∃ s, w'.files.Settles (settingsPath (addDeep.homeIn deepWorld)) s := by
  obtain ⟨w', ended, saved⟩ := addFolder_deep
  refine ⟨rfl, w', ended, ?_⟩
  rintro ⟨s, content, read, held⟩
  rw [saved, Except.ok.injEq] at read
  subst read
  have sorted : deepChain.Each (·.config.Sorted) := defines_deepChain.sorted
  have loads := RelayerConfig.ofContent_encode_iff (s := ⟨[deepChain]⟩) (List.nodup_singleton _)
    (List.forall_mem_singleton.mpr sorted) (List.forall_mem_singleton.mpr legible_deepChain)
    (settingsPath (addDeep.homeIn deepWorld))
  have shallow : (Value.object [("x", nested 124)]).depth ≤ 122 + 1 :=
    (loads.mp ⟨s, held⟩ deepChain List.mem_cons_self).chain
  have inner := Value.depth_object_le_iff.mp shallow _ List.mem_cons_self
  rw [depth_nested] at inner
  omega

end Commands

end ChainRelay
