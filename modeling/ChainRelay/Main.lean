import ChainRelay.Launch
import ChainRelay.Shipped

/-! # The command line

The questions of a program are put to the system: files, standard output, error stream and
environment. There is no transport for requests, so every node is out of reach. -/

namespace ChainRelay.CommandLine

/-- The variables that the program looks up. -/
def lookedUp : List String :=
  ["HOME", "RELAYER_HOME", "RELAYER_LOG_LEVEL", "RELAYER_MNEMONIC", "OTEL_EXPORTER_OTLP_ENDPOINT",
    "OTEL_EXPORTER_OTLP_TRACES_ENDPOINT", "OTEL_EXPORTER_OTLP_LOGS_ENDPOINT"]

/-- The environment of the process. -/
def environment : IO Environment := do
  let found ← lookedUp.filterMapM fun name => do
    return (← IO.getEnv name).map fun value => (name, RawText.ofString value)
  return fun name => (found.find? (·.1 == name)).map (·.2)

/-- Which failure an error of the system is. -/
def faultOf : IO.Error → FileFault
  | .noFileOrDirectory .. => .notFound
  | .alreadyExists .. => .exists
  | e => .other (toString e)

/-- Perform an operation on files. -/
def attempt (action : IO α) : IO (Except FileFault α) := do
  try return .ok (← action)
  catch e => return .error (faultOf e)

/-- The reply when there is no transport. -/
def unreachable : Reply :=
  .unreachable ["client error (Connect)", "tcp connect error", "Network is unreachable (os error 101)"]

/-- Put a question to the system. -/
def answer (limit : IO.Ref (Option LogLevel)) (home : FilePath) : (q : Question) → IO q.Answer
  | .print text => IO.print text
  | .openLog level => do
    if (← limit.get).isSome then return false
    limit.set (some level)
    return true
  | .log entry => do
    if (← limit.get).any (·.passes entry.level) then IO.eprintln entry.line
  | .readFile path => attempt do return (← IO.FS.readBinFile path.display).toList
  | .writeFile path content => attempt (IO.FS.writeBinFile path.display ⟨content.toArray⟩)
  | .createFoldersAround path => attempt do
    match (System.mkFilePath [path.display]).parent with
    | some folder => IO.FS.createDirAll folder
    | none => pure ()
  | .listFolder path => attempt do
    return (← (System.mkFilePath [path.display]).readDir).toList.map fun e =>
      RawText.ofString e.fileName
  | .fileExists path => (System.mkFilePath [path.display]).pathExists
  | .userHome => return home
  | .post _ _ => return unreachable
  | .isCancelled => return false
  | .construct _ _ _ => return ()

/-- Wait for ever. -/
partial def wait : IO Unit := do
  IO.sleep 1000
  wait

/-- Perform a program. -/
def perform (ask : (q : Question) → IO q.Answer) : Program α → IO α
  | .done a => return a
  | .ask q next => do perform ask (next (← ask q))
  | .pause next => perform ask next
  | .awaitCancel next => do
    wait
    perform ask next
  | .hang => do
    wait
    throw (IO.userError "interrupted")

end ChainRelay.CommandLine

open ChainRelay in
/-- Run the program on the arguments of the process. -/
def main (args : List String) : IO UInt32 := do
  let env ← CommandLine.environment
  let argv := toString (← IO.appPath) :: args
  let home := (env "HOME").getD []
  let ask := CommandLine.answer (← IO.mkRef none) home
  match ← CommandLine.perform ask (launch shippedModules env (argv.map RawText.ofString)) with
  | .ok () => return 0
  | .error e =>
    IO.eprint e.farewell
    return 1
