import ChainRelay.Ethereum.Config
import ChainRelay.Ethereum.Rpc
import ChainRelay.Modules.Context

/-! # The Ethereum module

A chain backend that talks to an Ethereum node, and the command that prints the latest height of a
chain. -/

namespace ChainRelay.Ethereum

/-- The id of the module. -/
def moduleId : String := "ethereum"

/-- A connected chain. -/
structure Chain where
  config : Config
  url : Net.Url

namespace Chain

/-- The chain of a configuration, if its node has a web address. -/
def ofConfig (config : Config) : Except Report Chain :=
  let refusal := "invalid rpc_addr `" ++ config.rpcAddr ++ "`"
  match Net.Url.read config.rpcAddr with
  | .error e => .error (.because refusal (.plain e.message))
  | .ok url =>
    if url.scheme = "http" ∨ url.scheme = "https" then .ok { config, url }
    else .error (.plain (refusal ++ ": unsupported scheme `" ++ url.scheme ++ "`"))

/-- The chain of a JSON configuration. -/
def ofValue (v : Json.Value) : Except Report Chain := do
  ofConfig (← Config.ofValue v)

/-- The report of a failed question to the node. -/
def queryReport (c : Chain) (e : RpcError) : Report :=
  .because ("failed to query " ++ c.url.text) e.report

/-- Ask for the latest height. -/
def latestHeight (c : Chain) : Program (Except Report UInt64) := do
  match ← blockNumber c.url with
  | .ok n => return .ok n
  | .error e => return .error (c.queryReport e)

/-- The chain as a backend. -/
def backend (c : Chain) : Backend :=
  { role := .chain, chain := some { chainId := c.config.chainId, latestHeight := c.latestHeight } }

end Chain

/-- The fields of a configuration. -/
def schema : Schema :=
  [ { name := "chain_id", kind := .string, presence := .required
      description := "Chain identifier used by the relayer" },
    { name := "eth_chain_id", kind := .integer, presence := .required
      description := "EIP-155 chain id" },
    { name := "rpc_addr", kind := .string, presence := .required
      description := "JSON-RPC endpoint (http or https)" },
    { name := "ibc_address", kind := .string, presence := .required
      description := "Address of the IBC router contract" },
    { name := "timeout_secs", kind := .integer, presence := .optional (.ofUInt64 Config.defaultTimeout)
      description := "Per request timeout in seconds" } ]

/-- Builds chains. -/
def factory : Factory := fun v =>
  return (Chain.ofValue v).map Chain.backend

/-- The chain of a name, which must be served by this module. -/
def chosenChain (settings : RelayerConfig) (name : String) : Except Report ChainConfig :=
  match settings.chain? name with
  | none => .error (.plain ("chain `" ++ name ++ "` is not configured"))
  | some c =>
    if c.chain.module = moduleId then .ok c
    else
      .error (.plain ("chain `" ++ name ++ "` uses the `" ++ c.chain.module ++
        "` chain module, not `" ++ moduleId ++ "`"))

/-- Ask for the height of a configured chain. -/
def heightOfChain (ctx : Context) (name : String) : Attempt UInt64 := do
  let settings ← ctx.loadSettings
  let c ← Attempt.ofExcept id (chosenChain settings name)
  let backend ← Attempt.ofProgram Error.report (ctx.registry.buildBackend .chain c.chain)
  let chain ← Attempt.ofOption "backend does not expose a chain interface" backend.chain
  Attempt.ofProgram id chain.latestHeight

/-- Print the latest height of a configured chain. -/
def printHeight : Handler := fun ctx => do
  let name ← Attempt.ofOption "missing chain argument" (ctx.matched.text? "chain")
  let height ← Attempt.untilCancelled (heightOfChain ctx name)
  let text := Nat.repr height.toNat
  Program.log .info .ethereum ("queried latest height chain=" ++ name ++ " height=" ++ text)
  Program.printLine text

/-- The commands of the module. -/
def fragments : List (Fragment Handler) :=
  [ { path := [moduleId], about := "Query Ethereum chains" },
    { path := [moduleId, "height"]
      about := "Print the latest block number of a configured chain"
      args :=
        [{ id := "chain", long := some "chain", required := true
           help := some "Name of the chain in the configuration file" }]
      handler := some printHeight } ]

end Ethereum

/-- The module for Ethereum chains. -/
def ethereumModule : Module :=
  { provider := .single Ethereum.moduleId "Ethereum JSON-RPC chain" .chain Ethereum.schema
      Ethereum.factory
    commands := fun _ => Ethereum.fragments }

end ChainRelay
