import ChainRelay.Text.Raw

/-! # File paths

A path is raw text whose names stand between slashes. Repeated slashes and inner dots do not
count: two paths with the same components name the same file. -/

namespace ChainRelay

/-- The text of a path. -/
abbrev FilePath := RawText

/-- One component of a path. -/
inductive Component where
  /-- The root of all paths. -/
  | root
  /-- A dot at the start. -/
  | here
  /-- Two dots. -/
  | up
  | name (n : RawText)
  deriving DecidableEq, Repr

namespace FilePath

/-- The slash between names. -/
def slash : RawUnit := .char '/'

/-- A single dot. -/
def dot : RawText := [.char '.']

/-- Two dots. -/
def dots : RawText := [.char '.', .char '.']

/-- The text begins at the root. -/
def isAbsolute (p : FilePath) : Bool :=
  p.head? == some slash

/-- The texts between slashes, `current` being the start of the first in reverse. -/
def splitAtSlashes (current : RawText) : RawText → List RawText
  | [] => [current.reverse]
  | u :: rest =>
    if u = slash then current.reverse :: splitAtSlashes [] rest
    else splitAtSlashes (u :: current) rest

/-- The names between the slashes, dots included. -/
def names (p : FilePath) : List RawText :=
  (splitAtSlashes [] p).filter (!·.isEmpty)

/-- The components of a path. -/
def components (p : FilePath) : List Component :=
  let read (n : RawText) : Component := if n = dots then .up else .name n
  let inner (ns : List RawText) : List Component := (ns.filter (· ≠ dot)).map read
  if p.isAbsolute then .root :: inner p.names
  else
    match p.names with
    | first :: rest => if first = dot then .here :: inner rest else inner (first :: rest)
    | [] => []

/-- The path `q` seen from `p`. -/
def join (p q : FilePath) : FilePath :=
  if q.isAbsolute then q
  else if p.isEmpty || p.getLast? == some slash then p ++ q
  else p ++ [slash] ++ q

/-- The last component, if it is a name. -/
def fileName? (p : FilePath) : Option RawText :=
  match p.components.getLast? with
  | some (.name n) => some n
  | _ => none

/-- The name before its last dot and what follows the dot, unless nothing stands before it. -/
def splitName (n : RawText) : RawText × Option RawText :=
  let after := (n.reverse.takeWhile (· ≠ .char '.')).reverse
  let before := n.take (n.length - after.length - 1)
  if after.length = n.length || before.isEmpty then (n, none) else (before, some after)

/-- The file name without its extension. -/
def stem? (p : FilePath) : Option RawText :=
  p.fileName?.map fun n => (splitName n).1

/-- The path of a text. -/
def ofString (s : String) : FilePath :=
  RawText.ofString s

end FilePath

end ChainRelay
