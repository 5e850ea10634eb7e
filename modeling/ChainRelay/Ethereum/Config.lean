import ChainRelay.Config.Fault
import ChainRelay.Wallet.AddressText

/-! # Settings of an Ethereum chain -/

namespace ChainRelay.Ethereum

open Json Json.Reader

/-- The configuration of an Ethereum chain. -/
structure Config where
  chainId : String
  /-- The number of the chain in signed transactions. -/
  ethChainId : UInt64
  /-- The address of the node. -/
  rpcAddr : String
  /-- The contract that routes packets. -/
  ibcAddress : Address
  /-- How long a request may take. -/
  timeoutSecs : UInt64

namespace Config

/-- How long a request may take by default. -/
def defaultTimeout : UInt64 := 10

/-- The configuration as a JSON value. -/
def toValue (c : Config) : Value :=
  .object
    [ ("chain_id", .string c.chainId), ("eth_chain_id", .ofUInt64 c.ethChainId),
      ("rpc_addr", .string c.rpcAddr), ("ibc_address", .string c.ibcAddress.text),
      ("timeout_secs", .ofUInt64 c.timeoutSecs) ]

/-- The fields of a configuration while they are read. -/
structure Draft where
  chainId : Option String := none
  ethChainId : Option UInt64 := none
  rpcAddr : Option String := none
  ibcAddress : Option Address := none
  timeoutSecs : Option UInt64 := none

/-- How a configuration is read. -/
def shape : Shape Draft Config where
  title := "EthereumConfig"
  slots :=
    [ { name := "chain_id", required := true, filled := (·.chainId.isSome)
        read := fun _ => do
          let s ← readText
          return fun d => { d with chainId := some s } },
      { name := "eth_chain_id", required := true, filled := (·.ethChainId.isSome)
        read := fun _ => do
          let n ← readUInt64
          return fun d => { d with ethChainId := some n } },
      { name := "rpc_addr", required := true, filled := (·.rpcAddr.isSome)
        read := fun _ => do
          let s ← readText
          return fun d => { d with rpcAddr := some s } },
      { name := "ibc_address", required := true, filled := (·.ibcAddress.isSome)
        read := fun room => do
          let a ← Address.read room
          return fun d => { d with ibcAddress := some a } },
      { name := "timeout_secs", required := false, filled := (·.timeoutSecs.isSome)
        read := fun _ => do
          let n ← readUInt64
          return fun d => { d with timeoutSecs := some n } } ]
  strict := true
  empty := {}
  finish := fun d => do
    return { chainId := ← d.chainId, ethChainId := ← d.ethChainId, rpcAddr := ← d.rpcAddr
             ibcAddress := ← d.ibcAddress, timeoutSecs := d.timeoutSecs.getD defaultTimeout }

/-- Read a configuration. -/
def ofValue (v : Value) : Except Report Config :=
  readConfig shape.read v

end Config

end ChainRelay.Ethereum
