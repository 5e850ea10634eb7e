import ChainRelay.Command.Routing
import ChainRelay.Commands.BuiltIn

/-! # Applications

An application is composed of modules: their providers make the registry, and their commands are
merged with the built-in ones into one sealed tree. Composition fails as a whole. -/

namespace ChainRelay

/-- A composed application. -/
structure App where
  registry : Registry
  tree : Tree Handler

namespace App

/-- The id of the option for the log level. -/
def levelOption : String := "log-level"

/-- The id of the option for the collector of traces. -/
def collectorOption : String := "otel-endpoint"

/-- The options that every command takes. -/
def globalOptions (env : Environment) : List Args.ArgSpec :=
  [ { id := homeOption, long := some "home", valueName := some "DIR", kind := .path
      env := some (env.fallback "RELAYER_HOME" false)
      help := some "Relayer home directory [default: ~/.relayer]" },
    { id := levelOption, long := some "log-level", valueName := some "LEVEL"
      env := some (env.fallback "RELAYER_LOG_LEVEL" false), default := some "info"
      help := some "Log level: trace, debug, info, warn or error" },
    { id := collectorOption, long := some "otel-endpoint", valueName := some "URL"
      env := some (env.fallback "OTEL_EXPORTER_OTLP_ENDPOINT" false)
      help := some "Export traces and logs to this OTLP endpoint" } ]

/-- Insert fragments for an owner. -/
def insertAll (owner : String) (t : Tree Handler) : List (Fragment Handler) → Except Error (Tree Handler)
  | [] => .ok t
  | f :: rest =>
    match t.insert owner f with
    | .ok t => insertAll owner t rest
    | .error e => .error e

/-- Insert the commands of modules. -/
def insertModules (env : Environment) (t : Tree Handler) : List Module → Except Error (Tree Handler)
  | [] => .ok t
  | m :: rest =>
    match insertAll m.provider.id t (m.commands env) with
    | .ok t => insertModules env t rest
    | .error e => .error e

/-- Compose an application of modules. -/
def build (name : String) (about version : Option String) (env : Environment) (modules : List Module) :
    Except Error App := do
  let registry ← Registry.ofProviders (modules.map (·.provider))
  let tree := Tree.empty name about version (globalOptions env)
  let tree ← insertAll Commands.owner tree Commands.builtIn
  let tree ← insertModules env tree modules
  return { registry, tree := tree.sealed }

/-- The log of composing an application, as far as it came. -/
def buildLog (name : String) (modules : List Module) (built : Except Error App) : List LogEntry :=
  let span := "build\x7bname=" ++ name ++ " modules=" ++ Nat.repr modules.length ++ "\x7d"
  let entry (level : LogLevel) (spans : List String) (source : LogSource) (message : String) : LogEntry :=
    { level, spans := span :: spans, source, message }
  let rec registered (r : Registry) : List Module → List LogEntry
    | [] => []
    | m :: rest =>
      match r.register m.provider with
      | .ok r =>
        entry .debug ["register\x7bmodule=" ++ m.provider.id ++ "\x7d"] .registry "module registered" ::
          registered r rest
      | .error _ => []
  registered .empty modules ++
    match built with
    | .ok app =>
      [entry .info [] .framework
        ("command tree assembled commands=" ++ Nat.repr app.tree.paths.length)]
    | .error _ => []

/-- Route an argument vector, program name included, in the application whose tree is closed by it. -/
def parse (app : App) (argv : List RawText) : Except Error (Routed Handler) × App :=
  match app.tree.parse argv with
  | (.ok r, tree) => (.ok r, { app with tree })
  | (.error u, tree) => (.error (.usage u), { app with tree })

/-- What an argument vector leads to. -/
def route (app : App) (argv : List RawText) : Except Error (Routed Handler) :=
  (app.parse argv).1

/-- Run a selected command against a registry. -/
def runInvocation (registry : Registry) (i : Invocation Handler) : Program (Except Error Unit) := do
  Program.log .debug .command ("dispatching command command=" ++ i.path.text)
  match ← (i.handler { matched := i.matched, registry }).run with
  | .ok () => return .ok ()
  | .error report => return .error (.handler report)

/-- Run a selected command. -/
def dispatch (app : App) (i : Invocation Handler) : Program (Except Error Unit) :=
  runInvocation app.registry i

/-- Route an argument vector and run the selected command; help goes to the output. -/
def run (app : App) (argv : List RawText) : Program (Except Error Unit) := do
  match app.parse argv with
  | (.error e, _) => return .error e
  | (.ok (.help text), _) =>
    Program.print text
    return .ok ()
  | (.ok (.invocation i), app) => app.dispatch i

end App

end ChainRelay
