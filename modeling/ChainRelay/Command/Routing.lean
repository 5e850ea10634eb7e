import ChainRelay.Args.Help
import ChainRelay.Args.Parse
import ChainRelay.Command.Nearest
import ChainRelay.Files.FilePath

/-! # Routing a command line

A command line selects a command that has a handler, asks for help, or is refused. -/

namespace ChainRelay

open Args

/-- A selected command with the values of its arguments. -/
structure Invocation (H : Type u) where
  path : CommandPath
  matched : Matches
  handler : H

/-- What a command line leads to. -/
inductive Routed (H : Type u) where
  /-- A text to show; nothing runs. -/
  | help (text : String)
  | invocation (i : Invocation H)

/-- Walk down along the levels of a command line as far as the commands know their names; the values
of the last such level count. -/
def Node.follow (n : Node H) (path : CommandPath) (matched : Matches) :
    Chain → CommandPath × Matches × Node H
  | [] => (path, matched, n)
  | (level, below) :: rest =>
    match level.name? with
    | none => (path, matched, n)
    | some name =>
      match n.child? name with
      | none => (path, matched, n)
      | some child => follow child (path.below name) below rest

namespace Tree

/-- The name under which the program was called. -/
def calledAs? (argv : List RawText) : Option String := do
  let program ← argv.head?
  let name ← FilePath.fileName? program
  name.toString?

/-- Route an argument vector, program name included. -/
def route (t : Tree H) (argv : List RawText) : Except UsageError (Routed H) :=
  let tokens := argv.tail
  let i := t.interface
  match i.parse (calledAs? argv) tokens with
  | .help level long => .ok (.help (level.helpText long))
  | .version => .ok (.help i.versionText)
  | .failed f => .error (t.usageError tokens f.message)
  | .selected chain =>
    let required := t.usageError tokens "error: a subcommand is required"
    match chain with
    | [] => .error required
    | (_, matched) :: rest =>
      match t.root.follow [] matched rest with
      | (path, matched, n) =>
        match n.handler? with
        | some handler => .ok (.invocation { path, matched, handler })
        | none => .error required

/-- Close the tree and route an argument vector. -/
def parse (t : Tree H) (argv : List RawText) : Except UsageError (Routed H) × Tree H :=
  (t.sealed.route argv, t.sealed)

end Tree

end ChainRelay
