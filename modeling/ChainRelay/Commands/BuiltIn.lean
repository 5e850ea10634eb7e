import ChainRelay.Commands.Chains
import ChainRelay.Commands.Modules
import ChainRelay.Commands.Settings

/-! # Built-in commands

The commands that are there whatever modules are registered. -/

namespace ChainRelay.Commands

/-- The owner of the built-in commands. -/
def owner : String := "relayer"

/-- The built-in commands, each group before those below it. -/
def builtIn : List (Fragment Handler) :=
  settingsFragments ++ chainFragments ++ moduleFragments

end ChainRelay.Commands
