import ChainRelay.Args.Spec
import ChainRelay.Command.Path
import ChainRelay.Text.Escaped

/-! # Command fragments

A fragment is a piece of the command tree. Without a handler it is a group: it carries help for the
commands below it. -/

namespace ChainRelay

/-- A piece of the command tree. -/
structure Fragment (H : Type u) where
  path : CommandPath
  about : String
  args : List Args.ArgSpec := []
  handler : Option H := none

namespace Fragment

/-- The text of a fragment for diagnostics; arguments and handler are left out. -/
def debugText (f : Fragment H) : String :=
  let path := "CommandPath([" ++ String.intercalate ", " (f.path.map quoteText) ++ "])"
  let runnable := if f.handler.isSome then "true" else "false"
  "CommandFragment \x7b path: " ++ path ++ ", about: " ++ quoteText f.about ++
    ", runnable: " ++ runnable ++ ", .. \x7d"

end Fragment

end ChainRelay
