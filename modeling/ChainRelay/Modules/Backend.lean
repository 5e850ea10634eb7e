import ChainRelay.Effects.Program
import ChainRelay.Report

/-! # Backends

A backend is built for one role and offers the interface of that role. -/

namespace ChainRelay

/-- The side of the relayer that faces a chain. -/
structure ChainBackend where
  /-- The id of the chain in the settings. -/
  chainId : String
  /-- Ask for the latest height of the chain. -/
  latestHeight : Program (Except Report UInt64)

/-- Signs digests on behalf of a chain. -/
structure SignerBackend where
  address : String
  /-- Sign a digest of 32 bytes. -/
  sign : List UInt8 → Except Report (List UInt8)

/-- The encoded states from which a light client starts. -/
structure LightClientState where
  clientState : List UInt8
  consensusState : List UInt8
  deriving DecidableEq, Repr

/-- A proof of a value under a path, and the height it holds at. -/
structure StateProof where
  proof : List UInt8
  height : UInt64
  deriving DecidableEq, Repr

/-- Produces light-client states and proofs. -/
structure ProverBackend where
  clientType : String
  /-- The states of a light client that starts at a height. -/
  initialState : (height : UInt64) → Except Report LightClientState
  /-- The latest height that is final, given the latest height of the chain. -/
  finalizedHeight : UInt64 → UInt64
  proveState : (height : UInt64) → (path : String) → (value : List UInt8) → Except Report StateProof

/-- An instance that a module has built. -/
structure Backend where
  /-- The role it was built for. -/
  role : Role
  chain : Option ChainBackend := none
  signer : Option SignerBackend := none
  prover : Option ProverBackend := none

end ChainRelay
