import ChainRelay.Args.Matches
import ChainRelay.Command.Fragment
import ChainRelay.Config.Fault
import ChainRelay.Effects.Attempt
import ChainRelay.Modules.Registry

/-! # What a command works with

A command sees its arguments and the registry, and finds the settings through the home directory. -/

namespace ChainRelay

/-- The id of the global option for the home directory. -/
def homeOption : String := "home"

/-- What a command works with. -/
structure Context where
  matched : Args.Matches
  registry : Registry

namespace Context

/-- The home directory: the given one, or the default one of the user. -/
def home (c : Context) : Program FilePath := do
  match c.matched.path? homeOption with
  | some home => return home
  | none => return defaultHome (← Program.question .userHome)

/-- The settings file. -/
def settingsPath (c : Context) : Program FilePath := do
  return ChainRelay.settingsPath (← c.home)

end Context

/-- Load the settings in a file. -/
def loadSettings (file : FilePath) : Program (Except ConfigError RelayerConfig) := do
  match ← Program.question (.readFile file) with
  | .ok content => return RelayerConfig.ofContent file content
  | .error fault => return .error (.io file fault)

/-- Load the settings of one chain. -/
def loadChain (file : FilePath) : Program (Except ConfigError ChainConfig) := do
  match ← Program.question (.readFile file) with
  | .ok content => return ChainConfig.ofContent file content
  | .error fault => return .error (.io file fault)

/-- Save settings, creating the folders around the file. -/
def saveSettings (file : FilePath) (c : RelayerConfig) : Program (Except ConfigError Unit) := do
  match ← Program.question (.createFoldersAround file) with
  | .error fault => return .error (.io file fault)
  | .ok () =>
    match ← Program.question (.writeFile file c.encode) with
    | .error fault => return .error (.io file fault)
    | .ok () => return .ok ()

/-- Load the settings of a command. -/
def Context.loadSettings (c : Context) : Attempt RelayerConfig := do
  let file ← c.settingsPath
  Attempt.ofProgram ConfigError.report (ChainRelay.loadSettings file)

/-- What runs when a command is selected. -/
abbrev Handler := Context → Attempt Unit

/-- The variables of the environment. -/
abbrev Environment := String → Option RawText

/-- The variable that stands in for an argument. -/
def Environment.fallback (env : Environment) (name : String) (secret : Bool) : Args.EnvFallback :=
  { name, value := env name, secret }

/-- A module: what it provides, and the commands it adds. -/
structure Module where
  provider : Provider
  commands : Environment → List (Fragment Handler)

end ChainRelay
