import ChainRelay.Command.Path
import ChainRelay.Report
import ChainRelay.Role

/-! # Errors of composing and running

Every error names its cause; `Error.message` has the wording. -/

namespace ChainRelay

/-- What two registrations both claim. -/
inductive Collision where
  /-- Two modules register the same id for the same role. -/
  | backend (role : Role) (id : String)
  /-- Two fragments have the same path. -/
  | command (path : CommandPath)
  /-- A fragment declares an argument that a global option already uses. -/
  | globalArg (path : CommandPath) (arg : String)
  deriving DecidableEq, Repr

/-- A command line that selects no command that can run. -/
structure UsageError where
  /-- What is wrong. -/
  message : String
  /-- The deepest command that the command line names. -/
  nearest : CommandPath
  /-- The commands below it. -/
  suggestions : List String
  deriving DecidableEq, Repr

/-- An error of composing modules or running a command. -/
inductive Error where
  | collision (c : Collision)
  /-- No module has this id for this role. -/
  | notFound (role : Role) (id : String) (available : List String)
  /-- A module does not provide this role. -/
  | unsupportedRole (id : String) (role : Role)
  /-- A module refuses its configuration. -/
  | configuration (role : Role) (id : String) (source : Report)
  | invalidPath (path : CommandPath)
  /-- The command tree takes no more fragments. -/
  | sealed (path : CommandPath)
  | usage (u : UsageError)
  /-- Logging could not be set up. -/
  | observability (source : Report)
  /-- The selected command failed. -/
  | handler (source : Report)
  deriving DecidableEq, Repr

/-- The names, or a word for none. -/
def listOrNone (names : List String) : String :=
  if names.isEmpty then "none" else String.intercalate ", " names

/-- The wording of a collision. -/
def Collision.message : Collision → String
  | .backend role id => role.name ++ " backend `" ++ id ++ "` is registered more than once"
  | .command path => "command `" ++ path.text ++ "` is defined more than once"
  | .globalArg path arg => "command `" ++ path.text ++ "` redefines the global flag `" ++ arg ++ "`"

/-- The line that names the commands below the nearest one. -/
def UsageError.hint (u : UsageError) : String :=
  if u.suggestions.isEmpty then ""
  else
    let place := if u.nearest.isEmpty then "" else " under `" ++ u.nearest.text ++ "`"
    "\navailable commands" ++ place ++ ": " ++ String.intercalate ", " u.suggestions

/-- The wording of a refused command line. -/
def UsageError.text (u : UsageError) : String :=
  u.message ++ u.hint

namespace Error

/-- The wording of an error. -/
def message : Error → String
  | .collision c => "collision: " ++ c.message
  | .notFound role id available =>
    "no " ++ role.name ++ " backend named `" ++ id ++ "` (available: " ++ listOrNone available ++ ")"
  | .unsupportedRole id role => "module `" ++ id ++ "` does not provide a " ++ role.name ++ " backend"
  | .configuration role id source =>
    "invalid configuration for " ++ role.name ++ " backend `" ++ id ++ "`: " ++ source.line
  | .invalidPath path => "invalid command path `" ++ path.text ++ "`"
  | .sealed path => "command tree is sealed, cannot insert `" ++ path.text ++ "`"
  | .usage u => u.text
  | .observability source => "failed to initialize observability: " ++ source.line
  | .handler source => source.message

/-- An error as a report. -/
def report (e : Error) : Report :=
  match e with
  | .configuration _ _ source => Report.because e.message source
  | .handler source => source
  | _ => Report.plain e.message

end Error

end ChainRelay
