import ChainRelay.Digest.Sha2
import ChainRelay.Modules.Context

/-! # The mock module

A prover for test networks. Its proofs are digests of what they prove, so they can be checked
without a light client. -/

namespace ChainRelay.Mock

open Json Json.Reader

/-- The id of the module. -/
def moduleId : String := "mock"

/-- The type of the light clients. -/
def clientType : String := "mock-client"

/-- The configuration of a prover. -/
structure Config where
  /-- How far the final height lags behind. -/
  finalityDelay : UInt64
  /-- What every commitment is mixed with. -/
  commitmentPrefix : String
  deriving DecidableEq

namespace Config

/-- The text that commitments are mixed with by default. -/
def defaultMix : String := "ibc"

/-- The configuration when there is none. -/
def default : Config :=
  { finalityDelay := 0, commitmentPrefix := defaultMix }

/-- The configuration as a JSON value. -/
def toValue (c : Config) : Value :=
  .object
    [ ("finality_delay", .ofUInt64 c.finalityDelay),
      ("commitment_prefix", .string c.commitmentPrefix) ]

/-- The fields of a configuration while they are read. -/
structure Draft where
  finalityDelay : Option UInt64 := none
  commitmentPrefix : Option String := none

/-- How a configuration is read. -/
def shape : Shape Draft Config where
  title := "MockConfig"
  slots :=
    [ { name := "finality_delay", required := false, filled := (·.finalityDelay.isSome)
        read := fun _ => do
          let n ← readUInt64
          return fun d => { d with finalityDelay := some n } },
      { name := "commitment_prefix", required := false, filled := (·.commitmentPrefix.isSome)
        read := fun _ => do
          let s ← readText
          return fun d => { d with commitmentPrefix := some s } } ]
  strict := true
  empty := {}
  finish := fun d =>
    some { finalityDelay := d.finalityDelay.getD 0
           commitmentPrefix := d.commitmentPrefix.getD defaultMix }

/-- Read a configuration. -/
def ofValue (v : Value) : Except Report Config :=
  readConfig shape.read v

/-- Read a configuration; `null` is the default one. -/
def ofValueOrNull (v : Value) : Except Report Config :=
  match v with
  | .null => .ok default
  | v => ofValue v

end Config

/-- The bytes that a commitment is the digest of. -/
def commitmentInput (c : Config) (height : UInt64) (path : String) (value : List UInt8) : List UInt8 :=
  Digest.toBigEndian 8 height.toNat ++ utf8Bytes c.commitmentPrefix ++ utf8Bytes path ++ value

/-- The commitment to a value under a path at a height. -/
def commitment (c : Config) (height : UInt64) (path : String) (value : List UInt8) : List UInt8 :=
  Digest.sha256 (commitmentInput c height path value)

/-- The state of a light client that starts at a height. -/
def clientState (c : Config) (height : UInt64) : Value :=
  .object
    [ ("client_type", .string clientType), ("finality_delay", .ofUInt64 c.finalityDelay),
      ("latest_height", .ofUInt64 height) ]

/-- The consensus state of a light client that starts at a height. -/
def consensusState (c : Config) (height : UInt64) : Value :=
  .object [("commitment_prefix", .string c.commitmentPrefix), ("height", .ofUInt64 height)]

/-- The states of a light client that starts at a height. -/
def initialState (c : Config) (height : UInt64) : Except Report LightClientState :=
  if height = 0 then .error (.plain "initial height must be positive")
  else
    .ok { clientState := utf8Bytes (clientState c height).compact
          consensusState := utf8Bytes (consensusState c height).compact }

/-- The latest final height; it does not go below zero. -/
def finalizedHeight (c : Config) (latest : UInt64) : UInt64 :=
  UInt64.ofNat (latest.toNat - c.finalityDelay.toNat)

/-- Prove a value under a path. -/
def proveState (c : Config) (height : UInt64) (path : String) (value : List UInt8) :
    Except Report StateProof :=
  if path.isEmpty then .error (.plain "state path must not be empty")
  else .ok { proof := commitment c height path value, height }

/-- The prover of a configuration. -/
def prover (c : Config) : ProverBackend :=
  { clientType, initialState := initialState c, finalizedHeight := finalizedHeight c
    proveState := proveState c }

/-- The fields of a configuration. -/
def schema : Schema :=
  [ { name := "finality_delay", kind := .integer, presence := .optional (.ofUInt64 0)
      description := "Blocks behind the tip considered final" },
    { name := "commitment_prefix", kind := .string, presence := .optional (.string Config.defaultMix)
      description := "Prefix mixed into every commitment" } ]

/-- Builds provers. -/
def factory : Factory := fun v =>
  return (Config.ofValueOrNull v).map fun c => { role := .prover, prover := some (prover c) }

end Mock

/-- The module for provers of test networks. -/
def mockModule : Module :=
  { provider := .single Mock.moduleId "Trusting prover for test networks" .prover Mock.schema
      Mock.factory
    commands := fun _ => [] }

end ChainRelay
