import ChainRelay.Config.Settings
import ChainRelay.Files.FileTree
import ChainRelay.Report

/-! # Why settings cannot be used -/

namespace ChainRelay

/-- A failure to load, change or save settings. -/
inductive ConfigError where
  /-- The file could not be read or written. -/
  | io (file : FilePath) (fault : FileFault)
  /-- The file holds no settings. -/
  | parse (file : FilePath) (refusal : Json.Refusal)
  /-- Two chains have the same name. -/
  | duplicateChain (name : String)

namespace ConfigError

/-- A failure with its cause. -/
def report : ConfigError → Report
  | .io file fault =>
    let message := fault.message
    ⟨"I/O error on `" ++ file.display ++ "`: " ++ message, [message]⟩
  | .parse file r =>
    ⟨"invalid config `" ++ file.display ++ "` at " ++ Json.pathText r.path ++ ": " ++ r.message,
      [r.messageWithPath]⟩
  | .duplicateChain name => .plain ("chain `" ++ name ++ "` is defined more than once")

/-- The wording of a failure. -/
def message (e : ConfigError) : String :=
  e.report.message

end ConfigError

/-- The report of a refused module configuration. -/
def configReport (r : Json.Refusal) : Report :=
  .plain ("config error at " ++ Json.pathText r.path ++ ": " ++ r.message)

/-- The configuration of a module, or the report that refuses it. -/
def readConfig (reader : (room : Nat) → Json.Reader α) (config : Json.Value) : Except Report α :=
  match decodeConfig reader config with
  | .ok a => .ok a
  | .error r => .error (configReport r)

/-- The settings in the content of a file. -/
def RelayerConfig.ofContent (file : FilePath) (content : List UInt8) :
    Except ConfigError RelayerConfig :=
  match RelayerConfig.decode content with
  | .error r => .error (.parse file r)
  | .ok c =>
    match c.duplicate? with
    | some name => .error (.duplicateChain name)
    | none => .ok c

/-- The settings of a chain in the content of a file. -/
def ChainConfig.ofContent (file : FilePath) (content : List UInt8) :
    Except ConfigError ChainConfig :=
  match ChainConfig.decode content with
  | .error r => .error (.parse file r)
  | .ok c => .ok c

/-- Append a chain. -/
def RelayerConfig.add (c : RelayerConfig) (chain : ChainConfig) : Except ConfigError RelayerConfig :=
  match c.add? chain with
  | some c => .ok c
  | none => .error (.duplicateChain chain.name)

/-- The home directory below the one of the user, who always has one here. -/
def defaultHome (userHome : FilePath) : FilePath :=
  userHome.join (.ofString ".relayer")

/-- The settings file in a home directory. -/
def settingsPath (home : FilePath) : FilePath :=
  (home.join (.ofString "config")).join (.ofString "config.json")

end ChainRelay
