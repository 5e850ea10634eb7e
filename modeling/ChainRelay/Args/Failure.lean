import ChainRelay.Args.Level
import ChainRelay.Args.Matches
import ChainRelay.Text.Escaped
import ChainRelay.Text.Plain

/-! # Why a command line is refused

A failure holds its cause and the level at which it was found. Its message has the cause, tips and
a usage line. -/

namespace ChainRelay.Args

/-- What is wrong with a value. -/
inductive ValueProblem where
  /-- There is no value. -/
  | missing
  /-- The value is not among the offered ones, some of which may be similar. -/
  | notOffered (value : String) (similar : Option String)
  /-- The value is no count. -/
  | noCount (value : String) (reason : String)
  /-- The value is not UTF-8. -/
  | encoding
  deriving DecidableEq, Repr

/-- A long option that resembles an unknown one, here or in a command below. -/
structure SimilarOption where
  name : String
  child : Option String
  deriving DecidableEq, Repr

/-- What is wrong with a command line. -/
inductive Cause where
  /-- A value that its argument does not admit. -/
  | value (arg : ArgSpec) (problem : ValueProblem)
  /-- A value for an option that takes none. -/
  | unneededValue (arg : ArgSpec) (value : String)
  /-- An argument that may be there only once. -/
  | repeated (arg : ArgSpec)
  /-- A token that begins with a dash and names no option. -/
  | unknownOption (text : String) (similar : Option SimilarOption) (mayBeValue : Bool)
  /-- A value that no argument takes. -/
  | unexpected (text : String)
  /-- The name of a command after the end of options. -/
  | commandAfterDashes (text : String)
  /-- A token in the place of a command. -/
  | unknownCommand (text : String) (similar : List String)
  /-- The command cannot stand alone. -/
  | missingCommand
  /-- An argument that may not stand beside some others; without these it has to be alone. -/
  | conflict (arg : ArgSpec) (others : List ArgSpec)
  /-- Needed arguments that are missing. -/
  | missingArguments (ids : List String)
  deriving DecidableEq, Repr

/-- A refusal of a command line. -/
structure Failure where
  cause : Cause
  /-- The command that the tokens had reached. -/
  level : Level
  /-- The arguments that the usage line names besides the required ones. -/
  used : List String

/-- Usage lines show the options that a command line needs. -/
def isOrdinaryOption (a : ArgSpec) : Bool :=
  !a.isPositional && a.long != some "help" && a.long != some "version" && a.action != .help &&
    a.action != .version

namespace Level

/-- The command, its required arguments, and hints at what else there is. -/
def generalUsage (l : Level) : String :=
  let options := l.named.filter fun a => isOrdinaryOption a && !a.required
  let ids := l.requiredIds
  let needed := ((ids.filterMap l.arg?).filter (!·.isPositional)).map (·.usageText true)
  let places := l.positionals.map fun a => a.usageText (ids.contains a.id)
  let below :=
    if l.children.isEmpty then []
    else if l.needsChild then ["<COMMAND>"]
    else ["[COMMAND]"]
  String.intercalate " "
    (l.usageName :: (if options.isEmpty then [] else ["[OPTIONS]"]) ++ needed ++ places ++ below)

/-- The command with its required arguments and those of some ids. -/
def usageWith (l : Level) (ids : List String) : String :=
  let shown := (l.requiredIds ++ ids).eraseDups
  let options := (shown.filterMap l.arg?).filter (!·.isPositional)
  let places := l.positionals.map fun a => a.usageText (shown.contains a.id)
  String.intercalate " "
    (l.usageName :: options.map (·.usageText true) ++ places ++
      (if l.needsChild then ["<COMMAND>"] else []))

end Level

namespace Failure

/-- The usage line that goes with a cause. -/
def usage? (f : Failure) : Option String :=
  let general := some f.level.generalUsage
  let used := if f.used.isEmpty then general else some (f.level.usageWith f.used)
  match f.cause with
  | .value _ .encoding => general
  | .value _ _ => none
  | .unneededValue _ _ => used
  | .repeated _ => general
  | .unknownOption _ _ _ => used
  | .unexpected _ => general
  | .commandAfterDashes _ => general
  | .unknownCommand _ _ => general
  | .missingCommand => general
  | .conflict _ _ => used
  | .missingArguments _ => used

/-- A value among the offered ones, in quotes if it holds blanks. -/
def offeredText (s : String) : String :=
  if s.toList.any isBlank then quoteText s else s

/-- The list of the values to choose from. -/
def choices (label : String) (names : List String) : String :=
  if names.isEmpty then ""
  else "\n  [" ++ label ++ ": " ++ String.intercalate ", " (names.map offeredText) ++ "]"

/-- The first lines of the message. -/
def headline (f : Failure) : String :=
  let unexpected (s : String) : String := "unexpected argument '" ++ s ++ "' found"
  match f.cause with
  | .value a .missing =>
    "a value is required for '" ++ a.text ++ "' but none was supplied" ++
      choices "possible values" a.options
  | .value a (.notOffered v _) =>
    (if v.isEmpty then "a value is required for '" ++ a.text ++ "' but none was supplied"
     else "invalid value '" ++ v ++ "' for '" ++ a.text ++ "'") ++
      choices "possible values" a.options
  | .value a (.noCount v reason) =>
    "invalid value '" ++ v ++ "' for '" ++ a.text ++ "': " ++ reason
  | .value _ .encoding => "invalid UTF-8 was detected in one or more arguments"
  | .unneededValue a v =>
    "unexpected value '" ++ v ++ "' for '" ++ a.text ++ "' found; no more were expected"
  | .repeated a => "the argument '" ++ a.text ++ "' cannot be used multiple times"
  | .unknownOption s _ _ => unexpected s
  | .unexpected s => unexpected s
  | .commandAfterDashes s => unexpected s
  | .unknownCommand s _ => "unrecognized subcommand '" ++ s ++ "'"
  | .missingCommand =>
    "'" ++ f.level.fullName ++ "' requires a subcommand but one was not provided" ++
      choices "subcommands" f.level.childNames
  | .conflict a others =>
    "the argument '" ++ a.text ++ "' cannot be used with" ++
      (match others with
        | [] => " one or more of the other specified arguments"
        | [other] => " '" ++ other.text ++ "'"
        | others => ":" ++ String.join (others.map fun other => "\n  " ++ other.text))
  | .missingArguments ids =>
    let options := (ids.filterMap f.level.arg?).filter (!·.isPositional)
    let ordered := options ++ f.level.positionals.filter fun a => ids.contains a.id
    "the following required arguments were not provided:" ++
      String.join (ordered.map fun a => "\n  " ++ a.usageText true)

/-- The tips that go with a cause. -/
def tips (f : Failure) : List String :=
  let quotedNames (names : List String) : String :=
    String.intercalate ", " (names.map fun n => "'" ++ n ++ "'")
  match f.cause with
  | .value _ (.notOffered _ (some other)) => ["a similar value exists: '" ++ other ++ "'"]
  | .unknownOption s similar mayBeValue =>
    (match similar with
      | some ⟨name, none⟩ => ["a similar argument exists: '--" ++ name ++ "'"]
      | some ⟨name, some child⟩ => ["'" ++ child ++ " --" ++ name ++ "' exists"]
      | none => []) ++
    (if mayBeValue then ["to pass '" ++ s ++ "' as a value, use '-- " ++ s ++ "'"] else [])
  | .commandAfterDashes s =>
    ["subcommand '" ++ s ++ "' exists; to use it, remove the '--' before it"]
  | .unknownCommand _ [name] => ["a similar subcommand exists: '" ++ name ++ "'"]
  | .unknownCommand _ (a :: rest) => ["some similar subcommands exist: " ++ quotedNames (a :: rest)]
  | _ => []

/-- The message. -/
def message (f : Failure) : String :=
  let tips :=
    if f.tips.isEmpty then ""
    else "\n\n" ++ String.intercalate "\n" (f.tips.map ("  tip: " ++ ·))
  let usage :=
    match f.usage? with
    | some usage => "\n\nUsage: " ++ usage
    | none => ""
  plainText ("error: " ++ f.headline ++ tips ++ usage ++
    "\n\nFor more information, try '--help'.\n")

end Failure

end ChainRelay.Args
