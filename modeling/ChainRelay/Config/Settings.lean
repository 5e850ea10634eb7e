import ChainRelay.Json.Printer
import ChainRelay.Json.Shape

/-! # Settings

The settings of the relayer name its chains; each chain names the modules that serve it and carries
their configurations, which stay opaque here. -/

namespace ChainRelay

open Json (Value Reader Shape Slot)

/-- A module and its configuration. -/
structure BackendConfig where
  module : String
  config : Value

/-- A chain and the backends that serve it. -/
structure ChainConfig where
  name : String
  enabled : Bool
  chain : BackendConfig
  /-- Absent for a chain that no transaction is sent to. -/
  signer : Option BackendConfig
  prover : BackendConfig

/-- The settings of the relayer. -/
structure RelayerConfig where
  chains : List ChainConfig

namespace BackendConfig

/-- The settings of a backend as a JSON value. -/
def toValue (c : BackendConfig) : Value :=
  .object [("module", .string c.module), ("config", c.config)]

/-- The fields of a backend's settings while they are read. -/
structure Draft where
  module : Option String := none
  config : Option Value := none

/-- How the settings of a backend are read. -/
def shape : Shape Draft BackendConfig where
  title := "BackendConfig"
  slots :=
    [ { name := "module", required := true, filled := (·.module.isSome)
        read := fun _ => do
          let s ← Json.readText
          return fun d => { d with module := some s } },
      { name := "config", required := false, filled := (·.config.isSome)
        read := fun room => do
          let v ← Json.readValue room
          return fun d => { d with config := some v } } ]
  strict := false
  empty := {}
  finish := fun d => d.module.map fun module => { module, config := d.config.getD .null }

end BackendConfig

namespace ChainConfig

/-- The settings of a chain as a JSON value; an absent signer is left out. -/
def toValue (c : ChainConfig) : Value :=
  .object
    ([("name", .string c.name), ("enabled", .bool c.enabled), ("chain", c.chain.toValue)] ++
      (match c.signer with
        | some s => [("signer", s.toValue)]
        | none => []) ++
      [("prover", c.prover.toValue)])

/-- The fields of a chain's settings while they are read. -/
structure Draft where
  name : Option String := none
  enabled : Option Bool := none
  chain : Option BackendConfig := none
  signer : Option (Option BackendConfig) := none
  prover : Option BackendConfig := none

/-- How the settings of a chain are read. -/
def shape : Shape Draft ChainConfig where
  title := "ChainConfig"
  slots :=
    [ { name := "name", required := true, filled := (·.name.isSome)
        read := fun _ => do
          let s ← Json.readText
          return fun d => { d with name := some s } },
      { name := "enabled", required := false, filled := (·.enabled.isSome)
        read := fun _ => do
          let b ← Json.readBool
          return fun d => { d with enabled := some b } },
      { name := "chain", required := true, filled := (·.chain.isSome)
        read := fun room => do
          let c ← BackendConfig.shape.read room
          return fun d => { d with chain := some c } },
      { name := "signer", required := false, filled := (·.signer.isSome)
        read := fun room => do
          let c ← Json.readOptional (BackendConfig.shape.read room)
          return fun d => { d with signer := some c } },
      { name := "prover", required := true, filled := (·.prover.isSome)
        read := fun room => do
          let c ← BackendConfig.shape.read room
          return fun d => { d with prover := some c } } ]
  strict := false
  empty := {}
  finish := fun d => do
    let name ← d.name
    let chain ← d.chain
    let prover ← d.prover
    return { name, enabled := d.enabled.getD true, chain, signer := d.signer.getD none, prover }

/-- The modules that serve a chain, on one line. -/
def describe (c : ChainConfig) : String :=
  "chain=" ++ c.chain.module ++ " signer=" ++ (c.signer.map (·.module)).getD "-" ++ " prover=" ++
    c.prover.module

/-- The settings of a chain from the bytes of a document, whatever follows it. -/
def decode (bytes : List UInt8) : Except Json.Refusal ChainConfig :=
  Json.runReader (shape.read Json.depthLimit) bytes

end ChainConfig

namespace RelayerConfig

/-- Settings without chains. -/
def empty : RelayerConfig :=
  ⟨[]⟩

/-- The settings of the relayer as a JSON value. -/
def toValue (c : RelayerConfig) : Value :=
  .object [("chains", .array (c.chains.map (·.toValue)))]

/-- The fields of the settings while they are read. -/
structure Draft where
  chains : Option (List ChainConfig) := none

/-- How the settings are read. -/
def shape : Shape Draft RelayerConfig where
  title := "RelayerConfig"
  slots :=
    [ { name := "chains", required := false, filled := (·.chains.isSome)
        read := fun room => do
          let cs ← Json.readList ChainConfig.shape.read room
          return fun d => { d with chains := some cs } } ]
  strict := false
  empty := {}
  finish := fun d => some ⟨d.chains.getD []⟩

/-- The settings from the bytes of a document, whatever follows it. -/
def decode (bytes : List UInt8) : Except Json.Refusal RelayerConfig :=
  Json.runReader (shape.read Json.depthLimit) bytes

/-- The bytes of a settings file. -/
def encode (c : RelayerConfig) : List UInt8 :=
  utf8Bytes (c.toValue.pretty ++ "\n")

/-- The chain of a name. -/
def chain? (c : RelayerConfig) (name : String) : Option ChainConfig :=
  c.chains.find? (·.name == name)

/-- Append a chain, unless its name is taken. -/
def add? (c : RelayerConfig) (chain : ChainConfig) : Option RelayerConfig :=
  if (c.chain? chain.name).isSome then none else some ⟨c.chains ++ [chain]⟩

/-- The first name that occurs among `seen` or before it in the list. -/
def repeatedName? (seen : List String) : List ChainConfig → Option String
  | [] => none
  | c :: rest => if seen.contains c.name then some c.name else repeatedName? (seen ++ [c.name]) rest

/-- The name of the earliest chain whose name occurred before it. -/
def duplicate? (c : RelayerConfig) : Option String :=
  repeatedName? [] c.chains

end RelayerConfig

/-- Read the configuration of a module, whose text is written first so that faults have a position. -/
def decodeConfig (reader : (room : Nat) → Reader α) (config : Value) : Except Json.Refusal α :=
  Json.runReader (reader Json.depthLimit) (utf8Bytes config.compact)

end ChainRelay
