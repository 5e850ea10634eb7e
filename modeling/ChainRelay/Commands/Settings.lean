import ChainRelay.Modules.Context

/-! # Commands for the settings file

`config init` and `config show`. -/

namespace ChainRelay.Commands

/-- Create an empty settings file, unless there is a file. -/
def initSettings : Handler := fun ctx => do
  let file ← ctx.settingsPath
  let found : Bool ← Program.question (.fileExists file)
  if found then
    Attempt.fail (.plain ("config file already exists at " ++ file.display))
  Attempt.ofProgram ConfigError.report (saveSettings file .empty)
  Program.printLine ("config file created at " ++ file.display)

/-- Print the settings file as it would be saved. -/
def showSettings : Handler := fun ctx => do
  let settings ← ctx.loadSettings
  Program.printLine settings.toValue.pretty

/-- The commands for the settings file. -/
def settingsFragments : List (Fragment Handler) :=
  [ { path := ["config"], about := "Manage the configuration file" },
    { path := ["config", "init"], about := "Create an empty configuration file"
      handler := some initSettings },
    { path := ["config", "show"], about := "Print the configuration file"
      handler := some showSettings } ]

end ChainRelay.Commands
