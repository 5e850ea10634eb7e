import ChainRelay.Args.Failure
import ChainRelay.Text.Similarity

/-! # Receiving values

How a value that was found for an argument changes the matches of its level, or why it is
refused. -/

namespace ChainRelay.Args

/-- The greatest count. -/
def greatestCount : Nat := 255

/-- The number that a text of decimal digits writes, after an optional sign. -/
def signedNumber? (cs : List Char) : Option Int :=
  let digits (ds : List Char) : Option Nat :=
    if ds.isEmpty || !ds.all Char.isDigit then none
    else some (ds.foldl (fun n d => n * 10 + (d.toNat - 48)) 0)
  match cs with
  | '-' :: rest => (digits rest).map fun n => -(n : Int)
  | '+' :: rest => (digits rest).map fun n => (n : Int)
  | rest => (digits rest).map fun n => (n : Int)

/-- A count that is written as a number. -/
def readCount (s : String) : Except ValueProblem Nat :=
  match signedNumber? s.toList with
  | none =>
    .error (.noCount s
      (if s.isEmpty then "cannot parse integer from empty string" else "invalid digit found in string"))
  | some n =>
    if 0x7FFFFFFFFFFFFFFF < n then .error (.noCount s "number too large to fit in target type")
    else if n < -0x8000000000000000 then .error (.noCount s "number too small to fit in target type")
    else if 0 ≤ n ∧ n ≤ greatestCount then .ok n.toNat
    else .error (.noCount s (toString n ++ " is not in 0..=255"))

/-- One of the offered values. -/
def readOffered (names : List String) (v : RawText) : Except ValueProblem String :=
  match v.toString? with
  | some s =>
    if names.contains s then .ok s
    else .error (.notOffered s (similarWords s names).getLast?)
  | none =>
    let s := v.display
    .error (.notOffered s (similarWords s names).getLast?)

/-- Check one value of an argument. -/
def checkValue (a : ArgSpec) (v : RawText) : Except ValueProblem Unit :=
  match a.kind with
  | .text => if v.toString?.isSome then .ok () else .error .encoding
  | .path => if v.isEmpty then .error .missing else .ok ()
  | .choice _ => (readOffered a.options v).map fun _ => ()

/-- What an argument holds once `value` has come from the source, given what it held before. -/
def holdValue (a : ArgSpec) (before : Option Received) (value : Option RawText) :
    Except ValueProblem Held :=
  match a.action, value with
  | .flag, none => .ok (.flag true)
  | .flag, some v => (readOffered a.options v).map fun s => .flag (s == "true")
  | .count, none =>
    match before with
    | some ⟨_, _, _, .count n⟩ => .ok (.count (min (n + 1) greatestCount))
    | _ => .ok (.count 1)
  | .count, some v =>
    match v.toString? with
    | some s => (readCount s).map .count
    | none => .error .encoding
  | .append, some v =>
    match before with
    | some ⟨_, _, _, .values vs⟩ => (checkValue a v).map fun _ => .values (vs ++ [v])
    | _ => (checkValue a v).map fun _ => .values [v]
  | _, some v => (checkValue a v).map fun _ => .values [v]
  | _, none => .error .missing

/-- What an argument holds before its first value. -/
def nothingHeld (a : ArgSpec) (before : Option Received) : Held :=
  match a.action, before with
  | .append, some ⟨_, _, _, .values vs⟩ => .values vs
  | .flag, _ => .flag false
  | .count, _ => .count 0
  | _, _ => .values []

/-- Receive a value of an argument, or an occurrence without value. A refused argument counts as
present, unless it came twice or had no value at all. -/
def receive (source : Source) (a : ArgSpec) (value : Option RawText) (m : Matches) :
    Matches × Option Cause :=
  let before := m.get? a.id
  let entry (held : Held) : Received := { id := a.id, kind := a.kind, source, held }
  let single := a.action = .set || a.action = .flag
  if a.takesValue && value.isNone then (m, some (.value a .missing))
  else if single && before.isSome then (m.erase a.id, some (.repeated a))
  else
    let base := if a.action = .count then m.erase a.id else m
    match holdValue a before value with
    | .ok held => (base.put (entry held), none)
    | .error problem => (base.put (entry (nothingHeld a before)), some (.value a problem))

/-- Receive the value of the environment for every argument that has none. -/
def receiveEnvironment : List ArgSpec → Matches → Matches × Option Cause
  | [], m => (m, none)
  | a :: rest, m =>
    match a.env.bind (·.value) with
    | some v =>
      if (m.get? a.id).isSome then receiveEnvironment rest m
      else
        match receive .environment a (some v) m with
        | (m, none) => receiveEnvironment rest m
        | (m, some cause) => (m, some cause)
    | none => receiveEnvironment rest m

/-- The value that stands for an argument that was not received. -/
def defaultValue? (a : ArgSpec) : Option RawText :=
  match a.action with
  | .set | .append => a.default.map RawText.ofString
  | .flag => some (RawText.ofString (a.default.getD "false"))
  | .count => some (RawText.ofString (a.default.getD "0"))
  | .help | .version => none

/-- Receive the default of every argument that has none. -/
def receiveDefaults : List ArgSpec → Matches → Matches × Option Cause
  | [], m => (m, none)
  | a :: rest, m =>
    match defaultValue? a with
    | some v =>
      if (m.get? a.id).isSome then receiveDefaults rest m
      else
        match receive .default a (some v) m with
        | (m, none) => receiveDefaults rest m
        | (m, some cause) => (m, some cause)
    | none => receiveDefaults rest m

end ChainRelay.Args
