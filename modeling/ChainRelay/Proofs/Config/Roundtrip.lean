import ChainRelay.Config.Fault
import ChainRelay.Proofs.Json.Records
import ChainRelay.Proofs.Json.Results

/-! # Saving and loading settings

Settings whose backends carry configurations that fit are loaded as they were saved. Configurations that
come from a definition file have their members in ascending order, which is what loading gives.
-/

namespace ChainRelay

open Json (Value Reader Shape)
open Json.Reader (gives_bind gives_pure)

/-- Every backend of the chain has the property. -/
structure ChainConfig.Each (P : BackendConfig → Prop) (c : ChainConfig) : Prop where
  chain : P c.chain
  signer : ∀ s, c.signer = some s → P s
  prover : P c.prover

theorem ChainConfig.Each.imp {P Q : BackendConfig → Prop} {c : ChainConfig} (each : c.Each P)
    (weaker : ∀ b, P b → Q b) : c.Each Q :=
  ⟨weaker _ each.chain, fun s same => weaker s (each.signer s same), weaker _ each.prover⟩

/-! ## Other configurations -/

/-- The same backend with another configuration. -/
def BackendConfig.mapConfig (f : Value → Value) (c : BackendConfig) : BackendConfig :=
  { c with config := f c.config }

/-- The same chain with other configurations. -/
def ChainConfig.mapConfigs (f : Value → Value) (c : ChainConfig) : ChainConfig :=
  { c with
    chain := c.chain.mapConfig f, signer := c.signer.map (·.mapConfig f), prover := c.prover.mapConfig f }

/-- The same chains with other configurations. -/
def RelayerConfig.mapConfigs (f : Value → Value) (s : RelayerConfig) : RelayerConfig :=
  ⟨s.chains.map (·.mapConfigs f)⟩

theorem ChainConfig.mapConfigs_id (c : ChainConfig) : c.mapConfigs id = c := by
  obtain ⟨name, enabled, chain, signer, prover⟩ := c
  cases signer <;> rfl

theorem RelayerConfig.mapConfigs_id (s : RelayerConfig) : s.mapConfigs id = s := by
  simp only [mapConfigs, ChainConfig.mapConfigs_id, List.map_id']

/-! ## Saved settings are loaded -/

theorem BackendConfig.shape_reads {room : Nat} {f : Value → Value} {c : BackendConfig}
    (reads : (Json.readValue room).Reads c.config (f c.config)) :
    (shape.read (room + 1)).Reads c.toValue (c.mapConfig f) := by
  have module := (Json.readText_reads c.module).then_pure fun s (d : Draft) => { d with module := some s }
  have config := reads.then_pure fun v (d : Draft) => { d with config := some v }
  exact Shape.read_reads (.next rfl rfl module (.next rfl rfl config .done)) rfl rfl

theorem ChainConfig.shape_reads {room : Nat} {f : Value → Value} {c : ChainConfig}
    (reads : c.Each fun b => (Json.readValue room).Reads b.config (f b.config)) :
    (shape.read (room + 2)).Reads c.toValue (c.mapConfigs f) := by
  obtain ⟨name, enabled, chain, signer, prover⟩ := c
  have named := (Json.readText_reads name).then_pure fun s (d : Draft) => { d with name := some s }
  have enabled' := (Json.readBool_reads enabled).then_pure fun b (d : Draft) => { d with enabled := some b }
  have served := (BackendConfig.shape_reads reads.chain).then_pure
    fun c (d : Draft) => { d with chain := some c }
  have proved := (BackendConfig.shape_reads reads.prover).then_pure
    fun c (d : Draft) => { d with prover := some c }
  cases signer with
  | none =>
      exact Shape.read_reads (.next rfl rfl named (.next rfl rfl enabled' (.next rfl rfl served
        (.next rfl rfl proved .done)))) rfl rfl
  | some s =>
      have signed := (Json.readOptional_reads (BackendConfig.shape_reads (reads.signer s rfl))).then_pure
        fun c (d : Draft) => { d with signer := some c }
      exact Shape.read_reads (.next rfl rfl named (.next rfl rfl enabled' (.next rfl rfl served
        (.next rfl rfl signed (.next rfl rfl proved .done))))) rfl rfl

namespace RelayerConfig

theorem shape_reads {room : Nat} {f : Value → Value} {s : RelayerConfig}
    (reads : ∀ c ∈ s.chains, c.Each fun b => (Json.readValue room).Reads b.config (f b.config)) :
    (shape.read (room + 4)).Reads s.toValue (s.mapConfigs f) := by
  have chains := (Json.readList_reads ChainConfig.toValue (·.mapConfigs f) fun c member =>
    ChainConfig.shape_reads (reads c member)).then_pure fun cs (d : Draft) => { d with chains := some cs }
  exact Shape.read_reads (.next rfl rfl chains .done) rfl rfl

/-- What is read of saved settings, up to the line end behind them. -/
theorem read_encode {room : Nat} {f : Value → Value} {s : RelayerConfig}
    (reads : ∀ c ∈ s.chains, c.Each fun b => (Json.readValue room).Reads b.config (f b.config)) :
    shape.read (room + 4) s.encode = .ok (s.mapConfigs f, [0x0A]) := by
  have lineEnd : Json.EndsNumber [0x0A] := by
    intro b first
    cases first
    decide
  have newline : utf8Bytes "\n" = [0x0A] := by decide
  rw [encode, utf8Bytes_append, newline]
  exact shape_reads reads [] _ [0x0A] Json.blank_nil (s.toValue.spells_prettyAt 0) lineEnd

/-- How many containers the configuration of a backend may open inside each other. -/
def configRoom : Nat := Json.depthLimit - 4

/-- Settings are loaded as they were saved. -/
theorem decode_encode {s : RelayerConfig} (fits : ∀ c ∈ s.chains, c.Each (·.config.Fits configRoom)) :
    decode s.encode = .ok s := by
  have read : shape.read (configRoom + 4) s.encode = .ok (s.mapConfigs id, [0x0A]) :=
    read_encode fun c member => (fits c member).imp fun _ fits => fits.reads
  have room : configRoom + 4 = Json.depthLimit := rfl
  rw [room, mapConfigs_id] at read
  simp only [decode, Json.runReader, read]

end RelayerConfig

/-! ## What a file gives

What is true of every value that is read is true of every configuration in a file.
-/

section

variable {P : Value → Prop} {room : Nat}

namespace BackendConfig

/-- What has been read of a backend has the property. -/
def Draft.Each (P : Value → Prop) (d : Draft) : Prop :=
  ∀ v, d.config = some v → P v

theorem shape_gives (null : P .null) (value : (Json.readValue room).Gives P) :
    (shape.read (room + 1)).Gives fun c => P c.config := by
  refine Shape.read_gives (P := Draft.Each P) nofun ?_ ?_
  · intro slot member
    simp only [shape, List.mem_cons, List.not_mem_nil, or_false] at member
    rcases member with rfl | rfl
    · exact gives_bind fun s => gives_pure fun d holds => holds
    · refine value.then fun v here => gives_pure fun d _ w same => ?_
      cases same
      exact here
  · rintro ⟨module, config⟩ c holds finish
    cases module with
    | none => cases finish
    | some module =>
        cases finish
        cases config with
        | none => exact null
        | some v => exact holds v rfl

end BackendConfig

namespace ChainConfig

/-- What has been read of a chain has the property. -/
structure Draft.Each (P : BackendConfig → Prop) (d : Draft) : Prop where
  chain : ∀ b, d.chain = some b → P b
  signer : ∀ b, d.signer = some (some b) → P b
  prover : ∀ b, d.prover = some b → P b

theorem Draft.Each.finish {P : BackendConfig → Prop} {d : Draft} (holds : d.Each P) {c : ChainConfig}
    (finished : shape.finish d = some c) : c.Each P := by
  obtain ⟨name, enabled, chain, signer, prover⟩ := d
  cases name with
  | none => cases finished
  | some name =>
      cases chain with
      | none => cases finished
      | some chain =>
          cases prover with
          | none => cases finished
          | some prover =>
              cases finished
              refine ⟨holds.chain chain rfl, fun s same => ?_, holds.prover prover rfl⟩
              cases signer with
              | none => cases same
              | some signer =>
                  cases same
                  exact holds.signer s rfl

theorem shape_gives (null : P .null) (value : (Json.readValue room).Gives P) :
    (shape.read (room + 2)).Gives fun c => c.Each (P ·.config) := by
  have backend := BackendConfig.shape_gives null value
  refine Shape.read_gives (P := Draft.Each (P ·.config)) ⟨nofun, nofun, nofun⟩ ?_ ?_
  · intro slot member
    simp only [shape, List.mem_cons, List.not_mem_nil, or_false] at member
    rcases member with rfl | rfl | rfl | rfl | rfl
    · exact gives_bind fun s => gives_pure fun d holds => ⟨holds.chain, holds.signer, holds.prover⟩
    · exact gives_bind fun b => gives_pure fun d holds => ⟨holds.chain, holds.signer, holds.prover⟩
    · refine backend.then fun c here => gives_pure fun d holds => ⟨?_, holds.signer, holds.prover⟩
      rintro b ⟨⟩
      exact here
    · have present : (BackendConfig.shape.read (room + 1)).Gives fun c => ∀ b, some c = some b → P b.config := by
        rintro bytes c rest read b ⟨⟩
        exact backend bytes c rest read
      have signer : (Json.readOptional (BackendConfig.shape.read (room + 1))).Gives
          fun c => ∀ b, c = some b → P b.config :=
        Json.readOptional_gives nofun present
      refine signer.then fun c here => gives_pure fun d holds => ⟨holds.chain, ?_, holds.prover⟩
      rintro b ⟨⟩
      exact here b rfl
    · refine backend.then fun c here => gives_pure fun d holds => ⟨holds.chain, holds.signer, ?_⟩
      rintro b ⟨⟩
      exact here
  · exact fun d c holds finished => holds.finish finished

/-- The configurations in a definition file have their members in ascending order. -/
theorem decode_ascending {bytes : List UInt8} {c : ChainConfig} (decoded : decode bytes = .ok c) :
    c.Each (·.config.Ascending) := by
  obtain ⟨rest, read⟩ := Json.runReader_eq_ok_iff.mp decoded
  exact shape_gives nofun (Json.readValue_gives 125) bytes c rest read

end ChainConfig

namespace RelayerConfig

theorem shape_gives (null : P .null) (value : (Json.readValue room).Gives P) :
    (shape.read (room + 4)).Gives fun s => ∀ c ∈ s.chains, c.Each (P ·.config) := by
  have chains : (Json.readList ChainConfig.shape.read (room + 3)).Gives fun cs => ∀ c ∈ cs, c.Each (P ·.config) :=
    Json.readList_gives (ChainConfig.shape_gives null value)
  refine Shape.read_gives (P := fun d : Draft => ∀ cs, d.chains = some cs → ∀ c ∈ cs, c.Each (P ·.config))
    nofun ?_ ?_
  · intro slot member
    simp only [shape, List.mem_singleton] at member
    subst member
    refine chains.then fun cs here => gives_pure fun d _ cs' same => ?_
    cases same
    exact here
  · rintro ⟨chains⟩ s holds ⟨⟩
    cases chains with
    | none => exact List.forall_mem_nil _
    | some cs => exact holds cs rfl

end RelayerConfig

end

end ChainRelay
