import ChainRelay.Effects.Program

/-! # Worlds

A world is the surroundings of a program as a value: files, the replies of a node, and when the
program is asked to stop. Running a program in a world gives its result and the world after it, with
a record of what it did. -/

namespace ChainRelay

/-- A factory was called. -/
structure Construction where
  position : Nat
  role : Role
  config : Json.Value

/-- The surroundings of a program. -/
structure World where
  files : FileTree
  userHome : FilePath
  /-- The replies to the next requests; later requests get the last field's answer. -/
  replies : List Reply
  /-- The answer when no reply is left. -/
  otherwise : Reply
  isCancelled : Bool
  /-- The number of pauses after which the program is asked to stop. -/
  cancelAfter : Option Nat
  /-- The lines that are each followed by an interrupt once the program has written them. -/
  interruptOn : List String
  /-- Interrupts that the program has not noticed yet. -/
  interrupts : Nat
  /-- What was written, in reverse. -/
  printed : List String
  /-- Which log entries are kept; none before the log is opened. -/
  logLimit : Option LogLevel
  /-- The log entries that were kept, in reverse. -/
  logged : List LogEntry
  /-- Which factories were called, in reverse. -/
  constructed : List Construction
  /-- Addresses and bodies of the requests, in reverse. -/
  requests : List (String × String)

/-- How a program ends. -/
inductive Ending (α : Type) where
  | finished (a : α)
  /-- The program waits for something that never comes. -/
  | stuck
  /-- A second interrupt ended the process. -/
  | aborted

namespace World

/-- All that was written. -/
def output (w : World) : String :=
  String.join w.printed.reverse

/-- The log in order. -/
def log (w : World) : List LogEntry :=
  w.logged.reverse

/-- An answer that leaves a world as it is unless it brings new files. -/
def settle (w : World) : Except FileFault FileTree → Except FileFault Unit × World
  | .ok files => (.ok (), { w with files })
  | .error e => (.error e, w)

/-- Interrupts follow a line that was waited for. -/
def afterPrint (w : World) (text : String) : World :=
  match w.interruptOn with
  | line :: rest =>
    if text == line ++ "\n" then { w with interruptOn := rest, interrupts := w.interrupts + 1 } else w
  | [] => w

/-- Keep a log entry that passes the limit. -/
def keep (w : World) (entry : LogEntry) : World :=
  if w.logLimit.any (·.passes entry.level) then { w with logged := entry :: w.logged } else w

/-- Answer a question. -/
def answer (w : World) : (q : Question) → q.Answer × World
  | .print text => ((), { w with printed := text :: w.printed }.afterPrint text)
  | .openLog limit => if w.logLimit.isSome then (false, w) else (true, { w with logLimit := some limit })
  | .log entry => ((), w.keep entry)
  | .readFile path => (w.files.read path, w)
  | .writeFile path content => w.settle (w.files.write path content)
  | .createFoldersAround path =>
    match w.files.createFoldersAround path with
    | (files, none) => (.ok (), { w with files })
    | (files, some e) => (.error e, { w with files })
  | .listFolder path => (w.files.list path, w)
  | .fileExists path => (w.files.contains path, w)
  | .userHome => (w.userHome, w)
  | .post address body =>
    let w := { w with requests := (address, body) :: w.requests }
    match w.replies with
    | reply :: rest => (reply, { w with replies := rest })
    | [] => (w.otherwise, w)
  | .isCancelled => (w.isCancelled, w)
  | .construct position role config =>
    ((), { w with constructed := { position, role, config } :: w.constructed })

/-- An entry about an interrupt. -/
def interruptEntry (level : LogLevel) (message : String) : LogEntry :=
  { level, spans := [], source := .framework, message }

/-- The program notices an interrupt: the first asks it to stop, a second ends the process. -/
def interrupted (w : World) : Bool × World :=
  let w := { w with interrupts := w.interrupts - 1 }
  if w.isCancelled then
    (true, w.keep (interruptEntry .warn "second interrupt received, exiting"))
  else
    (false, { w with isCancelled := true }.keep
      (interruptEntry .info "interrupt received, cancelling"))

/-- Others go on: the program may be asked to stop. -/
def pass (w : World) : World :=
  match w.cancelAfter with
  | some (n + 2) => { w with cancelAfter := some (n + 1) }
  | some _ => { w with isCancelled := true, cancelAfter := none }
  | none => w

/-- Notice all interrupts that came; the process ends at the second one. -/
def notice : (fuel : Nat) → World → Bool × World
  | 0, w => (false, w)
  | fuel + 1, w =>
    if w.interrupts = 0 then (false, w)
    else
      match w.interrupted with
      | (true, w) => (true, w)
      | (false, w) => notice fuel w

/-- Run a program in a world. -/
def run : Program α → World → Ending α × World
  | .done a, w => (.finished a, w)
  | .ask q next, w =>
    let (answer, w) := w.answer q
    run (next answer) w
  | .pause next, w =>
    match notice w.interrupts w with
    | (true, w) => (.aborted, w)
    | (false, w) => run next w.pass
  | .awaitCancel next, w =>
    match notice w.interrupts w with
    | (true, w) => (.aborted, w)
    | (false, w) =>
      if w.isCancelled then run next w
      else if w.cancelAfter.isSome then run next { w with isCancelled := true, cancelAfter := none }
      else (.stuck, w)
  | .hang, w =>
    match notice w.interrupts w with
    | (true, w) => (.aborted, w)
    | (false, w) => (.stuck, w)

end World

end ChainRelay
