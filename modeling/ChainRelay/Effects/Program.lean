import ChainRelay.Effects.Log
import ChainRelay.Files.FileTree
import ChainRelay.Json.Value
import ChainRelay.Role

/-! # Programs

What a command does, as data: a program asks its surroundings one question after the other, may
pause, and ends with a result. Nothing happens until a program is run in some surroundings. -/

namespace ChainRelay

/-- What a node answers to a request. -/
inductive Reply where
  | response (status : Nat) (reason : String) (body : List UInt8)
  /-- The request could not be sent, with the causes of that. -/
  | unreachable (causes : List String)
  /-- No answer ever comes. -/
  | silence
  deriving DecidableEq, Repr

/-- A question to the surroundings. -/
inductive Question where
  /-- Write to the standard output. -/
  | print (text : String)
  /-- Start to keep log entries that pass a limit; refused if that has been done before. -/
  | openLog (limit : LogLevel)
  | log (entry : LogEntry)
  | readFile (path : FilePath)
  | writeFile (path : FilePath) (content : List UInt8)
  /-- Create the folders around the file of a path. -/
  | createFoldersAround (path : FilePath)
  | listFolder (path : FilePath)
  | fileExists (path : FilePath)
  /-- The home directory of the user; surroundings in which it cannot be determined are left out. -/
  | userHome
  /-- Post a JSON text to an address. -/
  | post (address body : String)
  /-- Whether the program has been asked to stop. -/
  | isCancelled
  /-- Take note that the module at a position of the registry is about to build a backend. -/
  | construct (position : Nat) (role : Role) (config : Json.Value)

/-- The answers to a question. -/
def Question.Answer : Question → Type
  | .print _ => Unit
  | .openLog _ => Bool
  | .log _ => Unit
  | .readFile _ => Except FileFault (List UInt8)
  | .writeFile _ _ => Except FileFault Unit
  | .createFoldersAround _ => Except FileFault Unit
  | .listFolder _ => Except FileFault (List RawText)
  | .fileExists _ => Bool
  | .userHome => FilePath
  | .post _ _ => Reply
  | .isCancelled => Bool
  | .construct _ _ _ => Unit

/-- A program with a result. -/
inductive Program (α : Type) : Type where
  | done (a : α)
  | ask (q : Question) (next : q.Answer → Program α)
  /-- Let others go on before this program does. -/
  | pause (next : Program α)
  /-- Wait until the program is asked to stop. -/
  | awaitCancel (next : Program α)
  /-- Never end. -/
  | hang

namespace Program

/-- Run `f` on the result. -/
def bind (p : Program α) (f : α → Program β) : Program β :=
  match p with
  | .done a => f a
  | .ask q next => .ask q fun answer => bind (next answer) f
  | .pause next => .pause (bind next f)
  | .awaitCancel next => .awaitCancel (bind next f)
  | .hang => .hang

instance : Monad Program where
  pure := .done
  bind := bind

/-- Ask one question. -/
def question (q : Question) : Program q.Answer :=
  .ask q .done

/-- Write a text. -/
def print (text : String) : Program Unit :=
  question (.print text)

/-- Write a line. -/
def printLine (text : String) : Program Unit :=
  print (text ++ "\n")

/-- Make a log entry. -/
def log (level : LogLevel) (source : LogSource) (message : String) : Program Unit :=
  question (.log { level, spans := [], source, message })

/-- Make log entries in order. -/
def logAll : List LogEntry → Program Unit
  | [] => .done ()
  | entry :: rest => .ask (.log entry) fun _ => logAll rest

/-- Put the log entries of a program inside a span. -/
def within (span : String) : Program α → Program α
  | .done a => .done a
  | .ask (.log entry) next => .ask (.log (entry.within span)) fun answer => within span (next answer)
  | .ask q next => .ask q fun answer => within span (next answer)
  | .pause next => .pause (within span next)
  | .awaitCancel next => .awaitCancel (within span next)
  | .hang => .hang

/-- Post a JSON text and wait for the reply. -/
def post (address body : String) : Program Reply := do
  match ← question (.post address body) with
  | .response status reason body => .pause (.done (.response status reason body))
  | .unreachable causes => return .unreachable causes
  | .silence => .hang

/-- Run a program until it is asked to stop; that is checked before the program starts and after
each of its pauses, so a program that is asked to stop does not go on. -/
def untilCancelled (p : Program α) : Program (Option α) :=
  let rec go : Program α → Program (Option α)
    | .done a => .done (some a)
    | .ask q next => .ask q fun answer => go (next answer)
    | .pause next => .pause (.ask .isCancelled fun (stop : Bool) => if stop then .done none else go next)
    | .awaitCancel _ => .awaitCancel (.done none)
    | .hang => .awaitCancel (.done none)
  .ask .isCancelled fun (stop : Bool) => if stop then .done none else go p

end Program

end ChainRelay
