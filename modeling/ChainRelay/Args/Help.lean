import ChainRelay.Args.Failure

/-! # Help texts

A help text has the description, the usage line, and a table for the commands below, one for the
positional arguments and one for the options. The right column of a table moves below the left one
when it would become too narrow. -/

namespace ChainRelay.Args

/-- How many characters fit a line. -/
def lineWidth : Nat := 100

/-- How help texts are set. -/
structure HelpLayout where
  /-- Columns before a table entry and between its columns. -/
  gap : Nat
  /-- Columns before a description that stands below its entry. -/
  indent : Nat
  /-- Columns that a short name takes before a long one. -/
  shortWidth : Nat

/-- Entries stand two columns in and two apart; descriptions below them ten columns in. -/
def helpLayout : HelpLayout :=
  ⟨2, 10, 4⟩

/-- A number of spaces. -/
def spaces (n : Nat) : String :=
  String.ofList (List.replicate n ' ')

/-- Columns of some characters; a control character hides everything up to the next `m`. -/
def columnsFrom : (hidden : Bool) → List Char → Nat
  | _, [] => 0
  | true, c :: rest => columnsFrom (c != 'm') rest
  | false, c :: rest =>
    if EscapeState.isControl c then columnsFrom true rest
    else columnsFrom false rest + 1

/-- Columns of a text. -/
def columns (s : String) : Nat :=
  columnsFrom false s.toList

/-- Break the lines of a description where it says so. -/
def breakLines : List Char → List Char
  | '\x7b' :: 'n' :: '\x7d' :: rest => '\n' :: breakLines rest
  | c :: rest => c :: breakLines rest
  | [] => []

/-- A description with its line breaks. -/
def described (s : String) : String :=
  String.ofList (breakLines s.toList)

/-- Put spaces in front of every line but the first. -/
def indentRest (n : Nat) (s : String) : String :=
  String.intercalate ("\n" ++ spaces n) (s.splitOn "\n")

/-- The two forms of a help text. -/
structure HelpForm where
  /-- The values of an argument are described one by one. -/
  long : Bool

/-- The values that an argument offers, each with its description. -/
def valueNotes (a : ArgSpec) : List (String × String) :=
  match a.kind with
  | .choice options => options
  | .text | .path => []

/-- Some argument of the level describes its values. -/
def hasLongHelp (l : Level) : Bool :=
  l.args.any fun a => (valueNotes a).any fun (_, note) => !note.isEmpty

/-- The description of an argument. -/
def helpOf (l : Level) (form : HelpForm) (a : ArgSpec) : String :=
  match a.action with
  | .help =>
    if !hasLongHelp l then "Print help"
    else if form.long then "Print help (see a summary with '-h')"
    else "Print help (see more with '--help')"
  | _ => a.help.getD ""

/-- What else there is to say about an argument: its variable, default and values. -/
def notes (form : HelpForm) (a : ArgSpec) : String :=
  let env :=
    match a.env with
    | some e =>
      let value := if e.secret then "" else "=" ++ (e.value.map RawText.display).getD ""
      ["[env: " ++ e.name ++ value ++ "]"]
    | none => []
  let default :=
    match a.default with
    | some d => if a.takesValue then ["[default: " ++ Failure.offeredText d ++ "]"] else []
    | none => []
  let listed := valueNotes a
  let values :=
    if listed.isEmpty || form.long then []
    else ["[possible values: " ++ String.intercalate ", " (listed.map fun v => v.1) ++ "]"]
  String.intercalate (if form.long then "\n" else " ") (env ++ default ++ values)

/-- A description with its notes. -/
def withNotes (form : HelpForm) (about note : String) : String :=
  let about := described about
  if note.isEmpty then about
  else if about.isEmpty then note
  else about ++ (if form.long then "\n\n" else " ") ++ note

/-- A description would be too narrow beside entries of a width. -/
def tooNarrow (taken width : Nat) : Bool :=
  taken ≤ lineWidth && 40 * lineWidth < 100 * taken && lineWidth - taken < width

/-- The left column of an argument. -/
def entry (a : ArgSpec) : String :=
  let names :=
    match a.short, a.long with
    | some s, some l => "-" ++ s.toString ++ ", --" ++ l
    | some s, none => "-" ++ s.toString
    | none, some l => spaces helpLayout.shortWidth ++ "--" ++ l
    | none, none => ""
  names ++ a.usageEnd a.required

/-- The columns of an argument's entry; a lone short name is as wide as one with a long name. -/
def entryWidth (a : ArgSpec) : Nat :=
  if a.isPositional then columns a.text else columns a.text + helpLayout.shortWidth

/-- The width of the widest entry, lone short flags left out. -/
def widest (args : List ArgSpec) : Nat :=
  let counted := args.filter fun a => a.takesValue || a.long.isSome || a.short.isNone
  (counted.map entryWidth).foldl max 2

/-- Spaces between the entry of an argument and its description. -/
def entryGap (longest : Nat) (a : ArgSpec) : String :=
  let extra := if !a.isPositional && a.long.isNone then helpLayout.shortWidth else 0
  spaces (longest + helpLayout.gap + extra - entryWidth a)

/-- The values that an argument offers, one per line. -/
def valueLines (a : ArgSpec) : List String :=
  let listed := valueNotes a
  let width := (listed.map fun v => v.1.length).foldl max 0
  listed.map fun (name, note) =>
    let line := spaces helpLayout.indent ++ "- " ++ name
    if note.isEmpty then line else line ++ ":" ++ spaces (width - name.length + 1) ++ note

/-- One row of a table of arguments. -/
def argRow (l : Level) (form : HelpForm) (below : Bool) (longest : Nat) (a : ArgSpec) : String :=
  let left := spaces helpLayout.gap ++ entry a
  let text := withNotes form (helpOf l form a) (notes form a)
  if below then
    let indent := helpLayout.indent
    let listed := valueLines a
    let values :=
      if form.long && !listed.isEmpty then
        (if text.isEmpty then "" else "\n\n" ++ spaces indent) ++
          "Possible values:\n" ++ String.intercalate "\n" listed
      else ""
    left ++ "\n" ++ spaces indent ++ indentRest indent text ++ values
  else left ++ entryGap longest a ++ indentRest (longest + 2 * helpLayout.gap) text

/-- The table of some arguments. -/
def argTable (l : Level) (form : HelpForm) (args : List ArgSpec) : String :=
  let longest := widest args
  let narrow (a : ArgSpec) : Bool :=
    tooNarrow (longest + 2 * helpLayout.gap) (columns (helpOf l form a) + columns (notes form a))
  let below := form.long || args.any narrow
  String.intercalate (if below && form.long then "\n\n" else "\n")
    (args.map (argRow l form below longest))

/-- The key that orders options of equal rank. -/
def optionKey (a : ArgSpec) : String :=
  match a.short, a.long with
  | some s, _ =>
    String.ofList [s.toLower] ++ (if 'a' ≤ s && s ≤ 'z' then "0" else "1")
  | none, some l => l
  | none, none => "\x7b" ++ a.id

/-- Put an option behind those that come before it; one of the same rank and key is replaced. -/
def insertOption (rank : Nat) (a : ArgSpec) : List (Nat × ArgSpec) → List (Nat × ArgSpec)
  | [] => [(rank, a)]
  | (r, b) :: rest =>
    if rank < r || (rank == r && optionKey a < optionKey b) then (rank, a) :: (r, b) :: rest
    else if rank == r && optionKey a == optionKey b then (rank, a) :: rest
    else (r, b) :: insertOption rank a rest

/-- The options of a level in the order of their places in their own commands; those for help and
version come last. -/
def sortedOptions (l : Level) : List ArgSpec :=
  let all := ranked l.own ++ l.inherited ++ ranked l.shared ++ l.standard.map fun a => (999, a)
  let options := all.filter (!·.2.isPositional)
  (options.foldl (fun sorted (rank, a) => insertOption rank a sorted) []).map (·.2)

/-- The table of the commands below. -/
def childTable (l : Level) : String :=
  let longest := (l.children.map fun c => columns c.name).foldl max 2
  let about (c : Command) : String := c.about.getD ""
  let below := l.children.any fun c =>
    tooNarrow (longest + 2 * helpLayout.gap) (columns (about c))
  let row (c : Command) : String :=
    let left := spaces helpLayout.gap ++ c.name
    if below then
      left ++ "\n" ++ spaces helpLayout.indent ++ indentRest helpLayout.indent (described (about c))
    else
      left ++ spaces (longest + helpLayout.gap - columns c.name) ++
        indentRest (longest + 2 * helpLayout.gap) (described (about c))
  String.intercalate "\n" (l.children.map row)

/-- The text without its first line if that is blank. -/
def dropBlankLine (s : String) : String :=
  match s.toList.dropWhile (· ≠ '\n') with
  | _ :: rest => if (s.toList.takeWhile (· ≠ '\n')).all isBlank then String.ofList rest else s
  | [] => s

/-- The help text of a level. -/
def Level.helpText (l : Level) (long : Bool) : String :=
  let form : HelpForm := ⟨long && hasLongHelp l⟩
  let about :=
    match l.about with
    | some text => described text ++ "\n"
    | none => ""
  let table (title body : String) : String := "\n\n" ++ title ++ ":\n" ++ body
  let text :=
    about ++ "\nUsage: " ++ l.generalUsage ++
      (if l.children.isEmpty then "" else table "Commands" (childTable l)) ++
      (if l.positionals.isEmpty then "" else table "Arguments" (argTable l form l.positionals)) ++
      (if l.named.isEmpty then "" else table "Options" (argTable l form (sortedOptions l)))
  plainText (trimBlanksRight (dropBlankLine text) ++ "\n")

/-- The version text. -/
def Interface.versionText (i : Interface) : String :=
  plainText (i.name ++ " " ++ i.version.getD "" ++ "\n")

end ChainRelay.Args
