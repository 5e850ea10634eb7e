import ChainRelay.Modules.Context

/-! # Commands for chains

`chains list`, `chains add-dir` and `chains check`. -/

namespace ChainRelay.Commands

/-- A chain on one line. -/
def chainLine (c : ChainConfig) : String :=
  c.name ++ ": " ++ c.describe ++ (if c.enabled then "" else " (disabled)")

/-- Print one line for each chain. -/
def listChains : Handler := fun ctx => do
  let settings ← ctx.loadSettings
  settings.chains.forM fun c => Program.printLine (chainLine c)

/-- The order of texts by their bytes. -/
def bytesBefore (a b : RawText) : Bool :=
  decide (a.toBytes ≤ b.toBytes)

/-- The chain definitions among the names in a folder, in the order of their bytes. -/
def definitionFiles (folder : FilePath) (names : List RawText) : List FilePath :=
  let chosen := names.filter fun n =>
    (FilePath.splitName n).2 == some (RawText.ofString "json")
  (chosen.mergeSort bytesBefore).map folder.join

/-- The backends that a chain names, each with its role. -/
def backendsOf (c : ChainConfig) : List (Role × BackendConfig) :=
  [(.chain, c.chain)] ++
    (match c.signer with
      | some s => [(.signer, s)]
      | none => []) ++
    [(.prover, c.prover)]

/-- The first refusal of a chain's backends by the schemas of their modules. -/
def refusalOf? (r : Registry) (c : ChainConfig) : Option Error :=
  (backendsOf c).findSome? fun (role, backend) =>
    match r.validate role backend with
    | .ok () => none
    | .error e => some e

/-- Accept the definition of one chain into settings. -/
def acceptDefinition (ctx : Context) (settings : RelayerConfig) (file : FilePath) :
    Attempt RelayerConfig := do
  let chain ← Attempt.ofProgram ConfigError.report (loadChain file)
  match refusalOf? ctx.registry chain with
  | some e =>
    Attempt.fail (.because ("chain `" ++ chain.name ++ "` in " ++ file.display) e.report)
  | none =>
    Program.log .info .chains
      ("chain definition accepted chain=" ++ chain.name ++ " file=" ++ file.display)
    Attempt.ofExcept ConfigError.report (settings.add chain)

/-- Accept definitions one after the other. -/
def acceptDefinitions (ctx : Context) (settings : RelayerConfig) : List FilePath → Attempt RelayerConfig
  | [] => return settings
  | file :: rest => do
    let settings ← acceptDefinition ctx settings file
    acceptDefinitions ctx settings rest

/-- Add every chain definition in a folder. The settings are saved only when all are accepted. -/
def addFolder : Handler := fun ctx => do
  let folder ← Attempt.ofOption "missing directory argument" (ctx.matched.path? "dir")
  let settings ← ctx.loadSettings
  let names ← Attempt.ofProgram
    (fun fault => .because ("failed to read " ++ folder.display) (.plain (FileFault.message fault)))
    (Program.question (.listFolder folder))
  let files := definitionFiles folder names
  if files.isEmpty then
    Attempt.fail (.plain ("no chain definitions found in " ++ folder.display))
  let settings ← acceptDefinitions ctx settings files
  let path ← ctx.settingsPath
  Attempt.ofProgram ConfigError.report (saveSettings path settings)
  Program.printLine
    ("added " ++ Nat.repr files.length ++ " chain(s) from " ++ folder.display)

/-- The chains to check: the named one, or all that are enabled. -/
def selectedChains (settings : RelayerConfig) (name : Option String) :
    Except Report (List ChainConfig) :=
  match name with
  | some name =>
    match settings.chain? name with
    | some c => .ok [c]
    | none => .error (.plain ("chain `" ++ name ++ "` is not configured"))
  | none => .ok (settings.chains.filter (·.enabled))

/-- Build the backends of chains one after the other. -/
def checkEach (ctx : Context) : List ChainConfig → Attempt Unit
  | [] => return ()
  | c :: rest => do
    let _ ← Attempt.untilCancelled (Attempt.ofProgram Error.report (ctx.registry.buildChain c))
    Program.printLine (c.name ++ ": ok (" ++ c.describe ++ ")")
    checkEach ctx rest

/-- Build the backends of the selected chains. -/
def checkChains : Handler := fun ctx => do
  let settings ← ctx.loadSettings
  let chains ← Attempt.ofExcept id (selectedChains settings (ctx.matched.text? "chain"))
  checkEach ctx chains

/-- The commands for chains. -/
def chainFragments : List (Fragment Handler) :=
  [ { path := ["chains"], about := "Manage configured chains" },
    { path := ["chains", "list"], about := "List configured chains", handler := some listChains },
    { path := ["chains", "add-dir"]
      about := "Add every chain definition (*.json) found in a directory"
      args := [{ id := "dir", required := true, kind := .path
                 help := some "Directory containing chain definitions" }]
      handler := some addFolder },
    { path := ["chains", "check"], about := "Construct the backends of configured chains"
      args := [{ id := "chain", long := some "chain", help := some "Only check this chain" }]
      handler := some checkChains } ]

end ChainRelay.Commands
