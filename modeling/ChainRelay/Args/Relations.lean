import ChainRelay.Args.Spec

/-! # What arguments say of others

An argument may want to be alone, rule out others or ask for others. What it says counts once it is
given, on the command line or by the environment. -/

namespace ChainRelay.Args

/-- The argument of an id. -/
def argOf? (args : List ArgSpec) (id : String) : Option ArgSpec :=
  args.find? (·.id == id)

/-- The ids that the argument of an id asks for itself. -/
def requiresOf (args : List ArgSpec) (id : String) : List String :=
  ((argOf? args id).map (·.requires)).getD []

/-- The ids that the argument of an id rules out itself. -/
def conflictsOf (args : List ArgSpec) (id : String) : List String :=
  ((argOf? args id).map (·.conflicts)).getD []

/-- What the waiting ids ask for, and what is asked for in turn, as far as some steps lead. No id is
looked at twice. -/
def demandsFrom (args : List ArgSpec) : (steps : Nat) → (waiting seen : List String) → List String
  | 0, _, _ => []
  | _ + 1, [], _ => []
  | steps + 1, id :: waiting, seen =>
    if seen.contains id then demandsFrom args steps waiting seen
    else
      let asked := requiresOf args id
      let further := asked.filter fun other => !(requiresOf args other).isEmpty
      asked ++ demandsFrom args steps (further.reverse ++ waiting) (id :: seen)

/-- All ids that the argument of an id asks for, itself or through others. There is a step for the
argument and one for each id that is asked for anywhere. -/
def demands (args : List ArgSpec) (id : String) : List String :=
  demandsFrom args ((args.flatMap (·.requires)).length + 1) [id] []

/-- The given ids that may not stand beside an id, whichever of the two says so. -/
def clashing (args : List ArgSpec) (given : List String) (id : String) : List String :=
  given.filter fun other =>
    other != id && ((conflictsOf args id).contains other || (conflictsOf args other).contains id)

/-- The argument of an id wants to be given alone. -/
def isExclusive (args : List ArgSpec) (id : String) : Bool :=
  (argOf? args id).any (·.exclusive)

/-- The argument of an id wants to be given alone, and is not. -/
def isCrowded (args : List ArgSpec) (given : List String) (id : String) : Bool :=
  isExclusive args id && given.any (· != id)

/-- An argument with those that may not stand beside it, if there are any. -/
def clashAt? (args : List ArgSpec) (given : List String) (id : String) : Option (ArgSpec × List ArgSpec) :=
  match argOf? args id, clashing args given id with
  | some a, other :: others => some (a, (other :: others).eraseDups.filterMap (argOf? args))
  | _, _ => none

/-- The first given argument that may not stand beside others, with the others that it rules out;
there are none of these if it has to be given alone. -/
def clash? (args : List ArgSpec) (given : List String) : Option (ArgSpec × List ArgSpec) :=
  match (given.find? (isCrowded args given)).bind (argOf? args) with
  | some a => some (a, [])
  | none => given.findSome? (clashAt? args given)

/-- The ids that have to be given: those of required arguments and those that given ones ask for. -/
def neededIds (args : List ArgSpec) (given : List String) : List String :=
  (args.filter (·.required)).map (·.id) ++ given.flatMap (demands args)

/-- An argument may be left out beside one that wants to be alone or that clashes with it. -/
def isExcused (args : List ArgSpec) (given : List String) (id : String) : Bool :=
  given.any (isExclusive args) || !(clashing args given id).isEmpty

/-- The needed arguments that were not given, with the positional ones before the last of them. -/
def missingIds (args : List ArgSpec) (given : List String) : List String :=
  let missing := (neededIds args given).eraseDups.filter fun id =>
    (argOf? args id).isSome && !given.contains id && !isExcused args given id
  let places := args.filter (·.isPositional)
  let before := (places.reverse.dropWhile fun a => !missing.contains a.id).reverse
  missing ++ (before.filter fun a => !given.contains a.id && !missing.contains a.id).map (·.id)

end ChainRelay.Args
