import ChainRelay.App
import ChainRelay.Effects.World
import ChainRelay.Net.Endpoint

/-! # Launching

A process composes an application under its own name, selects a command, starts the log at the
chosen level, and runs the command. How that ends decides the exit code and what is said about a
failure. -/

namespace ChainRelay

namespace Launch

/-- The name of a process that was started under no name. -/
def defaultName : String := "relayer"

/-- What the program is for. -/
def about : String := "Relay packets between heterogeneous chains"

/-- The version of the program. -/
def version : String := "0.1.0"

/-- The name under which the process was started. -/
def programName (argv : List RawText) : String :=
  ((argv.head?.bind FilePath.stem?).bind RawText.toString?).getD defaultName

/-- The collector on this machine. -/
def localCollector : String := "http://localhost:4317"

/-- Where a kind of trace data goes: to the collector that was given, else to the one that the
environment names for that kind or for all kinds. -/
def collector (env : Environment) (given : String) (kind : String) : String :=
  let named (key : String) : Option String := (env key).bind RawText.toString?
  if given.isEmpty then
    (named kind <|> named "OTEL_EXPORTER_OTLP_ENDPOINT").getD localCollector
  else given

/-- Why traces and logs cannot be sent to a collector. -/
def collectorFault? (env : Environment) (given : String) : Option String :=
  ["OTEL_EXPORTER_OTLP_TRACES_ENDPOINT", "OTEL_EXPORTER_OTLP_LOGS_ENDPOINT"].findSome? fun kind =>
    let address := collector env given kind
    match Net.Endpoint.check address with
    | .ok () => none
    | .error e => some ("invalid URI " ++ address ++ ". Reason " ++ e.message)

/-- The log has been started before. -/
def startedBefore : Report :=
  ⟨"failed to set global default subscriber",
    ["a global default trace dispatcher has already been set"]⟩

/-- Start the log as the options ask for. A collector that cannot be used is only worth a
warning. -/
def startLog (env : Environment) (matched : Args.Matches) : Attempt Unit := do
  let level := (matched.text? App.levelOption).getD "info"
  let started : Bool ← Program.question (.openLog (.ofText level))
  if !started then Attempt.fail startedBefore
  match (matched.text? App.collectorOption).bind (collectorFault? env) with
  | some fault =>
    Program.log .warn .observability ("OpenTelemetry disabled error=" ++ fault)
  | none => pure ()

end Launch

/-- Compose an application of modules, and run the command that the arguments select. -/
def launch (modules : List Module) (env : Environment) (argv : List RawText) :
    Program (Except Error Unit) := do
  let name := Launch.programName argv
  let built := App.build name (some Launch.about) (some Launch.version) env modules
  Program.logAll (App.buildLog name modules built)
  match built with
  | .error e => return .error e
  | .ok app =>
    match app.parse argv with
    | (.error e, _) => return .error e
    | (.ok (.help text), _) =>
      Program.print text
      return .ok ()
    | (.ok (.invocation i), app) =>
      match ← (Launch.startLog env i.matched).run with
      | .error report => return .error (.observability report)
      | .ok () => app.dispatch i

/-- The exit code of a process; one that waits for ever has none. -/
def Ending.exitCode? : Ending (Except Error Unit) → Option Nat
  | .finished (.ok ()) => some 0
  | .finished (.error _) => some 1
  | .aborted => some 130
  | .stuck => none

/-- What a process says about the error that ended it. -/
def Error.farewell (e : Error) : String :=
  "Error: " ++ e.report.paragraphs ++ "\n"

end ChainRelay
