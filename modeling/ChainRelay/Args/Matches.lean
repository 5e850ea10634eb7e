import ChainRelay.Args.Spec

/-! # The values of arguments

`Matches` holds what a level has received, in the order in which the arguments first came. -/

namespace ChainRelay.Args

/-- Where a value comes from, the weakest source first. -/
inductive Source where
  | default
  | environment
  | commandLine
  deriving DecidableEq, Repr

namespace Source

/-- A greater rank wins. -/
def rank : Source → Nat
  | .default => 0
  | .environment => 1
  | .commandLine => 2

/-- The name of a source. -/
def text : Source → String
  | .default => "default"
  | .environment => "env"
  | .commandLine => "command line"

end Source

/-- What an argument holds. -/
inductive Held where
  | values (vs : List RawText)
  | flag (b : Bool)
  | count (n : Nat)
  deriving DecidableEq, Repr

/-- An argument that has been received. -/
structure Received where
  id : String
  kind : ValueKind
  source : Source
  held : Held
  deriving DecidableEq, Repr

/-- The arguments that a level has received. -/
abbrev Matches := List Received

namespace Matches

/-- What the argument of an id has received. -/
def get? (id : String) (m : Matches) : Option Received :=
  m.find? (·.id == id)

/-- Take an argument out. -/
def erase (id : String) (m : Matches) : Matches :=
  m.filter (·.id != id)

/-- Put an argument in the place of an earlier one, or last. -/
def put (r : Received) (m : Matches) : Matches :=
  if m.any (·.id == r.id) then m.map fun old => if old.id == r.id then r else old
  else m ++ [r]

/-- The ids of the arguments that no default stands for, in order. -/
def explicitIds (m : Matches) : List String :=
  (m.filter (·.source != .default)).map (·.id)

/-- The first value of an argument that holds text. -/
def text? (id : String) (m : Matches) : Option String :=
  match get? id m with
  | some ⟨_, .text, _, .values (v :: _)⟩ => v.toString?
  | _ => none

/-- The first value of an argument that holds paths. -/
def path? (id : String) (m : Matches) : Option RawText :=
  match get? id m with
  | some ⟨_, .path, _, .values (v :: _)⟩ => some v
  | _ => none

/-- The name chosen for an argument that offers some. -/
def choice? (id : String) (m : Matches) : Option String :=
  match get? id m with
  | some ⟨_, .choice _, _, .values (v :: _)⟩ => v.toString?
  | _ => none

end Matches

end ChainRelay.Args
