import ChainRelay.Text.Raw

/-! # What a command line may hold

A command line has options, which are named, and positional arguments, which are counted.

An argument has an id, names, an action, the values it admits, a default, a variable of the
environment, and what it says of the commands below and of other arguments. Of other ways to declare
arguments nothing is said here: aliases, numbers of values, separators, groups, arguments that
override others or depend on the values of others. -/

namespace ChainRelay.Args

/-- What the occurrences of an argument do. -/
inductive Action where
  /-- Hold one value. -/
  | set
  /-- Collect the values of all occurrences. -/
  | append
  /-- Be there or not. -/
  | flag
  /-- Count the occurrences. -/
  | count
  /-- Show the help text. -/
  | help
  /-- Show the version. -/
  | version
  deriving DecidableEq, Repr

/-- An action that takes a value. -/
def Action.takesValue : Action → Bool
  | .set | .append => true
  | .flag | .count | .help | .version => false

/-- Which values an argument admits. -/
inductive ValueKind where
  /-- Any valid text. -/
  | text
  /-- Any bytes but none at all. -/
  | path
  /-- One of some names, each with its description. -/
  | choice (options : List (String × String))
  deriving DecidableEq, Repr

/-- A variable of the environment that stands in for an argument, with its value. -/
structure EnvFallback where
  name : String
  value : Option RawText
  /-- Help texts do not show the value. -/
  secret : Bool := false
  deriving DecidableEq, Repr

/-- An argument. Without a long and a short name it is positional. -/
structure ArgSpec where
  id : String
  long : Option String := none
  short : Option Char := none
  action : Action := .set
  kind : ValueKind := .text
  valueName : Option String := none
  help : Option String := none
  default : Option String := none
  env : Option EnvFallback := none
  required : Bool := false
  /-- The commands below take the argument as well. -/
  passedOn : Bool := false
  /-- No other argument may be given beside it. -/
  exclusive : Bool := false
  /-- The ids of arguments that may not be given beside it. -/
  conflicts : List String := []
  /-- The ids of arguments that have to be given beside it. -/
  requires : List String := []
  deriving DecidableEq, Repr

namespace ArgSpec

/-- The argument is found by its place. -/
def isPositional (a : ArgSpec) : Bool :=
  a.long.isNone && a.short.isNone

/-- The argument takes a value. -/
def takesValue (a : ArgSpec) : Bool :=
  a.action.takesValue

/-- The name of the value in usage lines. -/
def valueText (a : ArgSpec) : String :=
  a.valueName.getD a.id

/-- The values to choose from. -/
def options (a : ArgSpec) : List String :=
  match a.kind with
  | .choice options => options.map (·.1)
  | .text | .path => if a.action = .flag then ["true", "false"] else []

/-- The value in usage lines: in angle brackets if it must be there, else in square ones. -/
def valueUsage (a : ArgSpec) (needed : Bool) : String :=
  let more := if a.isPositional && a.action = .append then "..." else ""
  if a.isPositional && !needed then "[" ++ a.valueText ++ "]" ++ more
  else "<" ++ a.valueText ++ ">" ++ more

/-- What follows the name of an argument in usage lines. -/
def usageEnd (a : ArgSpec) (needed : Bool) : String :=
  if a.isPositional then a.valueUsage needed
  else if a.takesValue then " " ++ a.valueUsage needed
  else if a.action = .count then "..."
  else ""

/-- The argument in usage lines. -/
def usageText (a : ArgSpec) (needed : Bool) : String :=
  let name :=
    match a.long, a.short with
    | some long, _ => "--" ++ long
    | none, some short => "-" ++ short.toString
    | none, none => ""
  name ++ a.usageEnd needed

/-- The argument in messages. -/
def text (a : ArgSpec) : String :=
  a.usageText a.required

end ArgSpec

/-- The option that shows the help text. -/
def helpOption : ArgSpec :=
  { id := "help", long := some "help", short := some 'h', action := .help }

/-- The option that shows the version. -/
def versionOption : ArgSpec :=
  { id := "version", long := some "version", short := some 'V', action := .version
    help := some "Print version" }

end ChainRelay.Args
