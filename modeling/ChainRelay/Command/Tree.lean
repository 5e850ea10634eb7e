import ChainRelay.Args.Level
import ChainRelay.Command.Fragment
import ChainRelay.Error

/-! # The command tree

Fragments are inserted at their paths; the groups that lead to them come into being by themselves
and can be claimed once later. The commands below one command keep the order in which their names
first came. A sealed tree takes no more fragments. -/

namespace ChainRelay

open Args

/-- What a fragment declares for its path. -/
structure Claim (H : Type u) where
  owner : String
  about : String
  args : List ArgSpec
  handler : Option H

/-- A command with the commands below it. -/
structure Node (H : Type u) where
  claim : Option (Claim H)
  children : List (String × Node H)

namespace Node

/-- A group that nobody has claimed. -/
def empty : Node H :=
  ⟨none, []⟩

/-- Apply `f` to the child of a name, or to a new last child. -/
def changeChild (name : String) (f : Node H → Node H) :
    List (String × Node H) → List (String × Node H)
  | [] => [(name, f empty)]
  | (other, n) :: rest =>
    if other = name then (other, f n) :: rest else (other, n) :: changeChild name f rest

/-- The child of a name. -/
def child? (n : Node H) (name : String) : Option (Node H) :=
  (n.children.find? (·.1 == name)).map (·.2)

/-- The command at a path. -/
def get? : CommandPath → Node H → Option (Node H)
  | [], n => some n
  | name :: rest, n => (n.child? name).bind (get? rest)

/-- Claim a path. -/
def insert (c : Claim H) : CommandPath → Node H → Node H
  | [], n => { n with claim := some c }
  | name :: rest, n => { n with children := changeChild name (insert c rest) n.children }

/-- The handler of a command. -/
def handler? (n : Node H) : Option H :=
  n.claim.bind (·.handler)

/-- A command that has others below it and no handler. -/
def needsChild (n : Node H) : Bool :=
  !n.children.isEmpty && n.handler?.isNone

mutual

/-- The claimed paths below a path, each before those below it. -/
def claimedPaths (path : CommandPath) (n : Node H) : List CommandPath :=
  match n with
  | ⟨_, children⟩ => claimedPathsOf path children

/-- The claimed paths of some children and below them. -/
def claimedPathsOf (path : CommandPath) (children : List (String × Node H)) : List CommandPath :=
  match children with
  | [] => []
  | (name, ⟨claim, below⟩) :: rest =>
    let here := path.below name
    (if claim.isSome then [here] else []) ++ claimedPathsOf here below ++ claimedPathsOf path rest

end

/-- Some children as commands of a command line. -/
def commandsOf (children : List (String × Node H)) : List Command :=
  match children with
  | [] => []
  | (name, ⟨claim, below⟩) :: rest =>
    { name
      about := claim.map (·.about)
      args := (claim.map (·.args)).getD []
      needsChild := needsChild ⟨claim, below⟩
      children := commandsOf below } :: commandsOf rest

/-- The commands below a command. -/
def commands (n : Node H) : List Command :=
  commandsOf n.children

end Node

/-- The merged commands of a program. -/
structure Tree (H : Type u) where
  name : String
  about : Option String
  version : Option String
  /-- The options that every command takes. -/
  globals : List ArgSpec
  root : Node H
  isSealed : Bool

namespace Tree

/-- A tree without commands. -/
def empty (name : String) (about version : Option String) (globals : List ArgSpec) : Tree H :=
  { name, about, version, globals, root := .empty, isSealed := false }

/-- Two arguments have the same id, long name or short name. -/
def sharesName (a b : ArgSpec) : Bool :=
  a.id == b.id || (a.long.isSome && a.long == b.long) || (a.short.isSome && a.short == b.short)

/-- The first global option that one of the arguments would shadow. -/
def shadowed? (t : Tree H) (args : List ArgSpec) : Option ArgSpec :=
  t.globals.find? fun g => args.any (sharesName · g)

/-- What a path has been claimed for. -/
def claim? (t : Tree H) (path : CommandPath) : Option (Claim H) :=
  (t.root.get? path).bind (·.claim)

/-- The path has been claimed. -/
def contains (t : Tree H) (path : CommandPath) : Bool :=
  (t.claim? path).isSome

/-- Who claimed a path. -/
def owner? (t : Tree H) (path : CommandPath) : Option String :=
  (t.claim? path).map (·.owner)

/-- The claimed paths, each before those below it. -/
def paths (t : Tree H) : List CommandPath :=
  t.root.claimedPaths []

/-- The tree, closed to further fragments. -/
def sealed (t : Tree H) : Tree H :=
  { t with isSealed := true }

/-- Why a fragment cannot be inserted. -/
def refusal? (t : Tree H) (f : Fragment H) : Option Error :=
  if t.isSealed then some (.sealed f.path)
  else if !f.path.isWellFormed then some (.invalidPath f.path)
  else if t.contains f.path then some (.collision (.command f.path))
  else (t.shadowed? f.args).map fun g => .collision (.globalArg f.path g.id)

/-- Insert a fragment for an owner. -/
def insert (t : Tree H) (owner : String) (f : Fragment H) : Except Error (Tree H) :=
  match t.refusal? f with
  | some e => .error e
  | none =>
    let claim : Claim H := { owner, about := f.about, args := f.args, handler := f.handler }
    .ok { t with root := t.root.insert claim f.path }

/-- The command line that the tree accepts. -/
def interface (t : Tree H) : Interface :=
  { name := t.name
    about := t.about
    version := t.version
    globals := t.globals
    needsChild := t.root.needsChild
    children := t.root.commands }

end Tree

end ChainRelay
