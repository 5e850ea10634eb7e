/-! # Log entries

An entry has a level, the spans it was made in, the part of the program that made it, and a text.
A filter lets a level and all more severe ones through. -/

namespace ChainRelay

/-- How severe a log entry is. -/
inductive LogLevel where
  | error
  | warn
  | info
  | debug
  | trace
  deriving DecidableEq, Repr

namespace LogLevel

/-- Every level, the most severe first. -/
def all : List LogLevel :=
  [.error, .warn, .info, .debug, .trace]

/-- The name of a level. -/
def name : LogLevel → String
  | .error => "ERROR"
  | .warn => "WARN"
  | .info => "INFO"
  | .debug => "DEBUG"
  | .trace => "TRACE"

/-- The more severe, the lower. -/
def rank : LogLevel → Nat
  | .error => 1
  | .warn => 2
  | .info => 3
  | .debug => 4
  | .trace => 5

/-- The rank that a text of decimal digits writes, after an optional plus. -/
def rankOfText? (s : String) : Option Nat :=
  let digits := match s.toList with
    | '+' :: rest => rest
    | cs => cs
  if digits.isEmpty || !digits.all Char.isDigit then none
  else some (digits.foldl (fun n d => n * 10 + (d.toNat - 48)) 0)

/-- The level that a text names in upper or lower case, or by its rank. -/
def ofText? (s : String) : Option LogLevel :=
  let upper := String.ofList (s.toList.map Char.toUpper)
  match all.find? (·.name == upper) with
  | some level => some level
  | none => (rankOfText? s).bind fun n => all.find? (·.rank == n)

/-- The level that a text names; an unknown one counts as `info`. -/
def ofText (s : String) : LogLevel :=
  (ofText? s).getD .info

/-- A filter at `limit` lets an entry of the level through. -/
def passes (limit level : LogLevel) : Bool :=
  level.rank ≤ limit.rank

end LogLevel

/-- A part of the program that makes log entries. -/
inductive LogSource where
  | framework
  | command
  | registry
  | chains
  | observability
  | ethereum
  | rpc
  | hd
  deriving DecidableEq, Repr

/-- The name under which a part of the program makes entries. -/
def LogSource.name : LogSource → String
  | .framework => "ibc_relayer_core::framework"
  | .command => "ibc_relayer_core::command"
  | .registry => "ibc_relayer_core::registry"
  | .chains => "ibc_relayer_core::builtin::chains"
  | .observability => "ibc_relayer_core::observability"
  | .ethereum => "ibc_relayer_ethereum"
  | .rpc => "ibc_relayer_ethereum::rpc"
  | .hd => "ibc_relayer_hd_signer"

/-- An entry of the log. -/
structure LogEntry where
  level : LogLevel
  /-- The enclosing spans, the outermost first. -/
  spans : List String
  source : LogSource
  message : String
  deriving DecidableEq, Repr

namespace LogEntry

/-- The entry as a line, without its time. -/
def line (e : LogEntry) : String :=
  e.level.name ++ " " ++ String.join (e.spans.map (· ++ ":")) ++
    (if e.spans.isEmpty then "" else " ") ++ e.source.name ++ ": " ++ e.message

/-- The entry made inside a span. -/
def within (span : String) (e : LogEntry) : LogEntry :=
  { e with spans := span :: e.spans }

end LogEntry

end ChainRelay
