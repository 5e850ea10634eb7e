import ChainRelay.Args.Receive

/-! # Reading a command line

One pass over the tokens. A token is the name of a command below, an option, the value of the
option before it, or a value of the next positional argument. The name of a command ends a level:
the rest belongs to the command below, which is completed before its parents are. -/

namespace ChainRelay.Args

/-- What the next token may be. -/
inductive Expecting where
  /-- Anything. -/
  | anything
  /-- The value of an option. -/
  | optionValue (a : ArgSpec)
  /-- Another value of a positional argument that collects them. -/
  | moreValues

/-- An argument that has not been received yet. -/
structure Pending where
  arg : ArgSpec
  value : Option RawText

/-- The state between two tokens of a level. -/
structure Scan where
  matched : Matches
  pending : Option Pending
  expecting : Expecting
  /-- How many positional arguments are complete. -/
  place : Nat
  /-- Options have ended. -/
  trailing : Bool

/-- The state before the first token. -/
def Scan.start : Scan :=
  { matched := [], pending := none, expecting := .anything, place := 0, trailing := false }

/-- Why reading stops early. -/
inductive Stop where
  /-- Help was asked for at a level, the long form or the short one. -/
  | help (level : Level) (long : Bool)
  | version
  | failed (f : Failure)

/-- The level and what it received, from the outermost level on. -/
abbrev Chain := List (Level × Matches)

/-- A token with a dash at its start that is more than the dash. -/
inductive DashToken where
  /-- Two dashes alone. -/
  | escape
  /-- A long name and what follows the first `=`. -/
  | long (name : RawText) (value : Option RawText)
  /-- A dash and short names. -/
  | short (cluster : RawText)

/-- The reading of a token that begins with a dash. -/
def dashToken? (t : RawText) : Option DashToken :=
  match t with
  | .char '-' :: .char '-' :: [] => some .escape
  | .char '-' :: .char '-' :: rest =>
    match RawText.splitOnce '=' rest with
    | some (name, value) => some (.long name (some value))
    | none => some (.long rest none)
  | .char '-' :: u :: rest => some (.short (u :: rest))
  | _ => none

/-- A token that names options. -/
def looksLikeOption (t : RawText) : Bool :=
  match dashToken? t with
  | some (.long _ _) | some (.short _) => true
  | _ => false

/-- The command below that a token names. -/
def namedChild? (l : Level) (t : RawText) : Option Command :=
  t.toString?.bind l.child?

/-- Refuse the command line at a level. -/
def refuse (l : Level) (cause : Cause) (used : List String := []) : Stop :=
  .failed { cause, level := l, used }

/-- Receive what is pending. -/
def settle (s : Scan) : Scan × Option Cause :=
  match s.pending with
  | none => (s, none)
  | some p =>
    let (m, cause) := receive .commandLine p.arg p.value s.matched
    ({ s with matched := m, pending := none }, cause)

/-- Receive what is pending, or stop. -/
def settled (l : Level) (s : Scan) : Except Stop Scan :=
  match settle s with
  | (s, none) => .ok s
  | (_, some cause) => .error (refuse l cause)

/-- Receive an argument of the command line. -/
def take (l : Level) (a : ArgSpec) (value : Option RawText) (s : Scan) : Except Stop Scan := do
  let s ← settled l s
  match receive .commandLine a value s.matched with
  | (m, none) => return { s with matched := m, expecting := .anything }
  | (_, some cause) => throw (refuse l cause)

/-- An option has been named, perhaps with a value attached. -/
def takeOption (l : Level) (a : ArgSpec) (long : Bool) (value : Option RawText) (s : Scan) :
    Except Stop Scan := do
  match a.action with
  | .help =>
    let _ ← settled l s
    throw (.help l long)
  | .version =>
    let _ ← settled l s
    throw .version
  | .flag | .count => take l a none s
  | .set | .append =>
    match value with
    | some v => take l a (some v) s
    | none =>
      let s ← settled l s
      return { s with pending := some ⟨a, none⟩, expecting := .optionValue a }

/-- The explicit arguments that a usage line names besides the required ones. -/
def shownIds (l : Level) (m : Matches) : List String :=
  m.explicitIds.filter fun id => !(l.arg? id).any (·.required)

/-- The option most similar to an unknown one: of this level, or of the first command below that
the rest of the command line names. -/
def similarOption (l : Level) (name : String) (rest : List RawText) : Option SimilarOption :=
  match (similarWords name (l.args.filterMap (·.long))).getLast? with
  | some other => some ⟨other, none⟩
  | none =>
    let found := l.children.filterMap fun c => do
      let other ← (similarWords name (c.args.filterMap (·.long))).getLast?
      let place ← rest.findIdx? (· == RawText.ofString c.name)
      return (place, { name := other, child := some c.name : SimilarOption })
    (found.foldl (fun best entry =>
      match best with
      | some b => if entry.1 < b.1 then some entry else best
      | none => some entry) none).map (·.2)

/-- Refuse a long name that no option has. -/
def refuseLong (l : Level) (name : RawText) (rest : List RawText) (s : Scan) : Stop :=
  let (s, _) := settle s
  let text := name.display
  let similar := similarOption l text rest
  let m :=
    match similar.bind fun o => l.long? o.name with
    | some a =>
      s.matched.put { id := a.id, kind := a.kind, source := .commandLine, held := nothingHeld a none }
    | none => s.matched
  refuse l (.unknownOption ("--" ++ text) similar (similar.isNone && !l.positionals.isEmpty))
    m.explicitIds

/-- A long name and what is attached to it. -/
def takeLong (l : Level) (name : RawText) (value : Option RawText) (rest : List RawText) (s : Scan) :
    Except Stop Scan :=
  match name.toString?.bind l.long? with
  | none => .error (refuseLong l name rest s)
  | some a =>
    match value with
    | some v =>
      if a.takesValue then takeOption l a true (some v) s
      else .error (refuse l (.unneededValue a v.display) (shownIds l s.matched ++ [a.id]))
    | none => takeOption l a true none s

/-- The value attached to a short name. -/
def attachedValue? (rest : RawText) : Option RawText :=
  match rest with
  | [] => none
  | .char '=' :: v => some v
  | v => some v

/-- Short names in one token. -/
def takeShorts (l : Level) : RawText → Scan → Except Stop Scan
  | [], s => .ok s
  | u :: rest, s =>
    let unknown (text : String) : Except Stop Scan :=
      .error (refuse l (.unknownOption ("-" ++ text) none (!l.positionals.isEmpty)))
    match u with
    | .byte _ => unknown (RawText.display (u :: rest))
    | .char c =>
      match l.short? c with
      | none => unknown c.toString
      | some a =>
        if a.takesValue then takeOption l a false (attachedValue? rest) s
        else
          match takeOption l a false none s with
          | .ok s => takeShorts l rest s
          | .error stop => .error stop

/-- The place that the next value takes: the value before a collecting place is left to that place
when nothing but options follow. -/
def nextPlace (l : Level) (next : Option RawText) (s : Scan) : Nat :=
  let places := l.positionals
  let collectsEarly := (places.take (places.length - 1)).any (·.action == .append)
  if s.place + 2 = places.length && collectsEarly then
    match next with
    | some t => if looksLikeOption t || (namedChild? l t).isSome then s.place + 1 else s.place
    | none => s.place + 1
  else s.place

/-- Refuse a value that has no place. -/
def refuseValue (l : Level) (t : RawText) (s : Scan) : Stop :=
  let text := t.display
  if s.trailing && (namedChild? l t).isSome then refuse l (.commandAfterDashes text)
  else
    let similar := similarWords text l.childNames
    if !similar.isEmpty then refuse l (.unknownCommand text similar)
    else if !l.children.isEmpty && l.positionals.isEmpty then refuse l (.unknownCommand text [])
    else refuse l (.unexpected text)

/-- A value for the next positional argument. -/
def takeValue (l : Level) (t : RawText) (next : Option RawText) (s : Scan) : Except Stop Scan := do
  let place := nextPlace l next s
  match l.positionals[place]? with
  | none => throw (refuseValue l t s)
  | some a =>
    let s ← settled l s
    let s := { s with pending := some ⟨a, some t⟩ }
    if a.action = .append then return { s with place, expecting := .moreValues }
    else return { s with place := place + 1, expecting := .anything }

/-- The value of the option before it. -/
def takeOptionValue (a : ArgSpec) (t : RawText) (s : Scan) : Scan :=
  { s with pending := some ⟨a, some t⟩, expecting := .anything }

/-- A token that names no command. -/
def takeToken (l : Level) (t : RawText) (rest : List RawText) (s : Scan) : Except Stop Scan :=
  if s.trailing then takeValue l t rest.head? s
  else
    match dashToken? t with
    | some .escape => .ok { s with trailing := true }
    | some (.long name value) => takeLong l name value rest s
    | some (.short cluster) => takeShorts l cluster s
    | none =>
      match s.expecting with
      | .optionValue a => .ok (takeOptionValue a t s)
      | .anything | .moreValues => takeValue l t rest.head? s

/-- The command that a token enters. -/
def entered? (l : Level) (t : RawText) (s : Scan) : Option Command :=
  match s.trailing, s.expecting with
  | false, .anything => namedChild? l t
  | _, _ => none

/-- The arguments that a usage line names beside one that clashes with some others: the remaining
given ones behind those that they ask for. -/
def usedBeside (args : List ArgSpec) (given others : List String) : List String :=
  if others.isEmpty then []
  else
    let used := given.filter (!others.contains ·)
    (used.flatMap (requiresOf args)).filter (fun id => !used.contains id && !others.contains id) ++ used

/-- The missing arguments of a message, behind all others that are asked for together with them. -/
def listedIds (args : List ArgSpec) (given missing : List String) : List String :=
  (((neededIds args given).flatMap fun id => demands args id ++ [id]).filter (!given.contains ·) ++
    missing).eraseDups

/-- Check which arguments were given: that none clashes with another and that nothing is missing. -/
def checkGiven (l : Level) (given : List String) : Except Stop Unit :=
  match clash? l.args given with
  | some (a, others) =>
    .error (refuse l (.conflict a others) (usedBeside l.args given (others.map (·.id))))
  | none =>
    let missing := missingIds l.args given
    if missing.isEmpty then .ok ()
    else .error (refuse l (.missingArguments (listedIds l.args given missing)) (given ++ missing))

/-- Complete a level whose tokens are read: receive what is pending, the environment and the
defaults, and check what was given. -/
def complete (l : Level) (hasChild : Bool) (s : Scan) : Except Stop Matches := do
  let s ← settled l s
  let stopAt (r : Matches × Option Cause) : Except Stop Matches :=
    match r with
    | (m, none) => .ok m
    | (_, some cause) => .error (refuse l cause)
  let m ← stopAt (receiveEnvironment l.args s.matched)
  let m ← stopAt (receiveDefaults l.args m)
  if !hasChild && l.needsChild then throw (refuse l .missingCommand)
  else
    checkGiven l m.explicitIds
    return m

/-- Read the tokens of a level and of the levels below it. -/
def readLevel (l : Level) : List RawText → Scan → Except Stop Chain
  | [], s => do
    let m ← complete l false s
    return [(l, m)]
  | t :: rest, s =>
    match entered? l t s with
    | some c => do
      let below ← readLevel (l.enter c) rest .start
      let m ← complete l true s
      return (l, m) :: below
    | none => do
      let s ← takeToken l t rest s
      readLevel l rest s

/-- The value of a shared option after two levels: the deeper one, unless its source is weaker. -/
def strongest (outer : Option Received) (inner : Received) : Received :=
  match outer with
  | some o => if o.source.rank > inner.source.rank then o else inner
  | none => inner

/-- The values of shared options, from the outermost level to the innermost. -/
def sharedValues (ids : List String) (chain : Chain) : Matches :=
  chain.foldl (fun known (_, m) =>
    ids.foldl (fun known id =>
      match m.get? id with
      | some r => known.put (strongest (known.get? id) r)
      | none => known) known) []

/-- The ids of the arguments that levels have in common. -/
def Chain.commonIds (chain : Chain) : List String :=
  chain.flatMap fun (l, _) => l.commonIds

/-- Give every level the final values of the shared options. -/
def shareValues (ids : List String) (chain : Chain) : Chain :=
  let shared := sharedValues ids chain
  chain.map fun (l, m) => (l, shared.foldl (fun m r => m.put r) m)

/-- What a command line asks for. -/
inductive Outcome where
  | help (level : Level) (long : Bool)
  | version
  /-- The levels that were entered, the outermost first. -/
  | selected (chain : Chain)
  | failed (f : Failure)

namespace Interface

/-- Read a command line whose first token is the name of the program. -/
def parse (i : Interface) (calledAs : Option String) (tokens : List RawText) : Outcome :=
  match readLevel (i.level calledAs) tokens .start with
  | .ok chain => .selected (shareValues (Chain.commonIds chain) chain)
  | .error (.help l long) => .help l long
  | .error .version => .version
  | .error (.failed f) => .failed f

end Interface

end ChainRelay.Args
