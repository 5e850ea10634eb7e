import ChainRelay.Args.Relations

/-! # Commands as the tokens meet them

A command has arguments and commands below it. A `Level` is a command on the way that the tokens go:
with the names that lead to it and the arguments that it has from the commands above. -/

namespace ChainRelay.Args

/-- A command and the commands below it. -/
structure Command where
  name : String
  about : Option String
  args : List ArgSpec
  /-- The command cannot stand alone. -/
  needsChild : Bool
  children : List Command

/-- A command line: a command, the version to report, and the options that hold everywhere. -/
structure Interface where
  name : String
  about : Option String
  version : Option String
  globals : List ArgSpec
  needsChild : Bool
  children : List Command

/-- Arguments with their ranks: how many options their command declares before them. -/
def rankedFrom (rank : Nat) : List ArgSpec → List (Nat × ArgSpec)
  | [] => []
  | a :: rest => (rank, a) :: rankedFrom (if a.isPositional then rank else rank + 1) rest

/-- The arguments that one command declares, with their ranks. -/
def ranked (args : List ArgSpec) : List (Nat × ArgSpec) :=
  rankedFrom 0 args

theorem map_snd_rankedFrom (rank : Nat) (args : List ArgSpec) : (rankedFrom rank args).map (·.2) = args := by
  induction args generalizing rank with
  | nil => rfl
  | cons a rest ih => rw [rankedFrom, List.map_cons, ih]

/-- A command as the tokens meet it. -/
structure Level where
  /-- The names that lead here from the outermost command, which itself is left out. -/
  path : List String
  /-- The name of the program, for want of one it was called by. -/
  program : String
  /-- The name the program was called by, with the names that lead here. -/
  calledAs : Option String
  /-- The command with the names and required arguments of its parents. -/
  usageName : String
  about : Option String
  /-- The arguments that this command declares. -/
  own : List ArgSpec
  /-- The arguments that the commands above have passed on, with their ranks there. -/
  inherited : List (Nat × ArgSpec)
  /-- The options shared with the outermost command. -/
  shared : List ArgSpec
  /-- The options for help and version. -/
  standard : List ArgSpec
  needsChild : Bool
  children : List Command

namespace Level

/-- The name of the command; the outermost one has none. -/
def name? (l : Level) : Option String :=
  l.path.getLast?

/-- The arguments that a level has not declared itself. -/
def lent (l : Level) : List ArgSpec :=
  l.inherited.map (·.2) ++ l.shared ++ l.standard

/-- All arguments of a level. -/
def args (l : Level) : List ArgSpec :=
  l.own ++ l.lent

/-- The arguments that a level passes on, but for the options shared with the outermost command. -/
def passed (l : Level) : List (Nat × ArgSpec) :=
  (ranked l.own).filter (·.2.passedOn) ++ l.inherited

theorem mem_args_of_passed {l : Level} {e : Nat × ArgSpec} (member : e ∈ l.passed) : e.2 ∈ l.args := by
  rcases List.mem_append.mp member with own | inherited
  · apply List.mem_append_left
    rw [← map_snd_rankedFrom 0 l.own]
    exact List.mem_map_of_mem (List.mem_filter.mp own).1
  · exact List.mem_append_right _ (List.mem_append_left _ (List.mem_append_left _ (List.mem_map_of_mem inherited)))

/-- The ids of the arguments that a level has in common with the levels below it. -/
def commonIds (l : Level) : List String :=
  l.passed.map (·.2.id) ++ l.shared.map (·.id)

/-- The positional arguments in their order. -/
def positionals (l : Level) : List ArgSpec :=
  l.args.filter (·.isPositional)

/-- The arguments with names. -/
def named (l : Level) : List ArgSpec :=
  l.args.filter (!·.isPositional)

/-- The argument of an id. -/
def arg? (l : Level) (id : String) : Option ArgSpec :=
  l.args.find? (·.id == id)

/-- The argument of a long name. -/
def long? (l : Level) (name : String) : Option ArgSpec :=
  l.args.find? (·.long == some name)

/-- The argument of a short name. -/
def short? (l : Level) (name : Char) : Option ArgSpec :=
  l.args.find? (·.short == some name)

/-- The names of the commands below. -/
def childNames (l : Level) : List String :=
  l.children.map (·.name)

/-- The command below of a name. -/
def child? (l : Level) (name : String) : Option Command :=
  l.children.find? (·.name == name)

/-- The ids of the required arguments, behind those that they ask for. -/
def requiredIds (l : Level) : List String :=
  ((l.args.filter (·.required)).flatMap fun a => demands l.args a.id ++ [a.id]).eraseDups

/-- What the required arguments add to the name of a command below: options first. -/
def requiredText (l : Level) : List String :=
  let needed := l.requiredIds
  (((needed.filterMap l.arg?).filter (!·.isPositional)) ++ l.positionals.filter fun a => needed.contains a.id).map
    (·.usageText true)

/-- The command with the names of its parents. -/
def fullName (l : Level) : String :=
  l.calledAs.getD l.program

/-- The level of a command below. -/
def enter (l : Level) (c : Command) : Level :=
  { path := l.path ++ [c.name]
    program := l.program
    calledAs := some (match l.calledAs with
      | some name => name ++ " " ++ c.name
      | none => c.name)
    usageName := match l.calledAs with
      | some name => String.intercalate " " (name :: l.requiredText ++ [c.name])
      | none => c.name
    about := c.about
    own := c.args
    inherited := l.passed.filter fun e => !c.args.any (·.id == e.2.id)
    shared := l.shared.filter fun g => !c.args.any (·.id == g.id)
    standard := [helpOption]
    needsChild := c.needsChild
    children := c.children }

/-- Below a command there are its own arguments, those of the level above it, and the option for help. -/
theorem mem_lent_enter {l : Level} {c : Command} {a : ArgSpec} (member : a ∈ (l.enter c).lent) :
    a ∈ l.args ∨ a = helpOption := by
  rcases List.mem_append.mp member with common | standard
  · left
    rcases List.mem_append.mp common with inherited | shared
    · obtain ⟨e, passed, rfl⟩ := List.mem_map.mp inherited
      exact mem_args_of_passed (List.mem_filter.mp passed).1
    · exact List.mem_append_right _
        (List.mem_append_left _ (List.mem_append_right _ (List.mem_filter.mp shared).1))
  · exact .inr (List.mem_singleton.mp standard)

/-- The levels stand at the end of the same names and have the same arguments from elsewhere. -/
structure Aligned (l l' : Level) : Prop where
  path : l.path = l'.path
  inherited : l.inherited = l'.inherited
  shared : l.shared = l'.shared
  standard : l.standard = l'.standard

namespace Aligned

variable {l l' : Level} (aligned : l.Aligned l')
include aligned

theorem lent : l.lent = l'.lent := by
  rw [Level.lent, Level.lent, aligned.inherited, aligned.shared, aligned.standard]

theorem commonIds (passed : l.passed = l'.passed) : l.commonIds = l'.commonIds := by
  rw [Level.commonIds, Level.commonIds, passed, aligned.shared]

/-- Aligned levels that pass on the same arguments are aligned below commands with the same arguments. -/
theorem enter (passed : l.passed = l'.passed) {c c' : Command} (name : c.name = c'.name) (args : c.args = c'.args) :
    (l.enter c).Aligned (l'.enter c') where
  path := by simp only [Level.enter, aligned.path, name]
  inherited := by simp only [Level.enter, passed, args]
  shared := by simp only [Level.enter, aligned.shared, args]
  standard := rfl

end Aligned

end Level

/-- The outermost level, with the name under which it was called. -/
def Interface.level (i : Interface) (calledAs : Option String) : Level :=
  { path := []
    program := i.name
    calledAs
    usageName := calledAs.getD i.name
    about := i.about
    own := []
    inherited := []
    shared := i.globals
    standard := helpOption :: (if i.version.isSome then [versionOption] else [])
    needsChild := i.needsChild
    children := i.children }

end ChainRelay.Args
