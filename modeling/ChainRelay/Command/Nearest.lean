import ChainRelay.Command.Tree

/-! # The nearest command

The deepest command that the leading tokens of a command line name, passing over options and the
values of global options. -/

namespace ChainRelay

open Args

/-- An option token whose value is the next token, as far as the global options tell. -/
def takesNext (globals : List ArgSpec) (flag : List Char) : Bool :=
  let named (a : ArgSpec) : Bool :=
    match flag with
    | '-' :: '-' :: long => a.long == some (String.ofList long)
    | '-' :: short :: _ => a.short == some short
    | _ => false
  !flag.contains '=' && globals.any fun a => named a && a.takesValue

/-- Walk down from a command; `skip` says that the next token is the value of an option. -/
def walkDown (globals : List ArgSpec) (n : Node H) (path : CommandPath) :
    (skip : Bool) → List RawText → CommandPath × Node H
  | _, [] => (path, n)
  | true, _ :: rest => walkDown globals n path false rest
  | false, t :: rest =>
    match t.toString? with
    | none => (path, n)
    | some token =>
      if token.toList.head? = some '-' then walkDown globals n path (takesNext globals token.toList) rest
      else
        match n.child? token with
        | none => (path, n)
        | some child => walkDown globals child (path.below token) false rest

namespace Tree

/-- The error for a command line, whose program name is left out. -/
def usageError (t : Tree H) (tokens : List RawText) (message : String) : UsageError :=
  let (nearest, n) := walkDown t.globals t.root [] false tokens
  { message := trimBlanksRight message, nearest, suggestions := n.children.map (·.1) }

end Tree

end ChainRelay
