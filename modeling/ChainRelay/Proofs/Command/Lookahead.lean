import ChainRelay.Proofs.Command.Options

/-! # Looking ahead of an option

The walk to the nearest command looks at an option to tell whether the next token is its value. The reading of the
command line tells the same for long names and for switches. For an option in a cluster of short names it need not:
the walk looks at the first name and at equals signs only.
-/

namespace ChainRelay

namespace Args

/-! ## How an option token is read -/

/-- Short names: some of switches, and at the end perhaps that of an option that takes a value, with the text that
stands behind it. -/
inductive Cluster (l : Level) : RawText → List ArgSpec → Option (ArgSpec × RawText) → Prop where
  | done : Cluster l [] [] none
  | valued {c : Char} {a : ArgSpec} {attached : RawText} (found : l.short? c = some a) (takes : a.takesValue = true) :
    Cluster l (.char c :: attached) [] (some (a, attached))
  | switch {c : Char} {a : ArgSpec} {rest : RawText} {switches : List ArgSpec} {last : Option (ArgSpec × RawText)}
    (found : l.short? c = some a) (alone : a.takesValue = false) (later : Cluster l rest switches last) :
    Cluster l (.char c :: rest) (a :: switches) last

/-- What an option token says. -/
inductive Reading where
  /-- A long name, and the value behind an equals sign. -/
  | long (a : ArgSpec) (value : Option RawText)
  /-- Short names of switches, and perhaps that of an option with a value, with what stands behind it. -/
  | short (switches : List ArgSpec) (last : Option (ArgSpec × RawText))

/-- What a token says to a level. -/
inductive Level.Reads (l : Level) (t : RawText) : Reading → Prop where
  | long {name : RawText} {value : Option RawText} {a : ArgSpec} (dash : dashToken? t = some (.long name value))
    (found : name.toString?.bind l.long? = some a) : l.Reads t (.long a value)
  | short {names : RawText} {switches : List ArgSpec} {last : Option (ArgSpec × RawText)}
    (dash : dashToken? t = some (.short names)) (cluster : Cluster l names switches last) :
    l.Reads t (.short switches last)

theorem Cluster.unique {l : Level} {names : RawText} {switches switches' : List ArgSpec}
    {last last' : Option (ArgSpec × RawText)} (cluster : Cluster l names switches last)
    (other : Cluster l names switches' last') : switches = switches' ∧ last = last' := by
  induction cluster generalizing switches' with
  | done =>
      cases other
      exact ⟨rfl, rfl⟩
  | valued found takes =>
      cases other with
      | valued found' takes' =>
          cases found.symm.trans found'
          exact ⟨rfl, rfl⟩
      | switch found' alone _ =>
          cases found.symm.trans found'
          cases takes.symm.trans alone
  | switch found alone _ ih =>
      cases other with
      | valued found' takes =>
          cases found.symm.trans found'
          cases alone.symm.trans takes
      | switch found' _ later =>
          cases found.symm.trans found'
          obtain ⟨rfl, rfl⟩ := ih later
          exact ⟨rfl, rfl⟩

section Reads

variable {l : Level} {t : RawText} {r r' : Reading}

theorem Level.Reads.unique (reads : l.Reads t r) (other : l.Reads t r') : r = r' := by
  cases reads with
  | long dash found =>
      cases other with
      | long dash' found' =>
          cases dash.symm.trans dash'
          cases found.symm.trans found'
          rfl
      | short dash' _ => cases dash.symm.trans dash'
  | short dash cluster =>
      cases other with
      | long dash' _ => cases dash.symm.trans dash'
      | short dash' cluster' =>
          cases dash.symm.trans dash'
          obtain ⟨rfl, rfl⟩ := cluster.unique cluster'
          rfl

theorem Level.Reads.looksLikeOption (reads : l.Reads t r) : looksLikeOption t = true := by
  cases reads with
  | long dash _ => simp only [Args.looksLikeOption, dash]
  | short dash _ => simp only [Args.looksLikeOption, dash]

end Reads

namespace Reading

/-- The options that are named. -/
def options : Reading → List ArgSpec
  | .long a _ => [a]
  | .short switches last => switches ++ last.toList.map (·.1)

/-- The option whose value is the next token. -/
def awaited? : Reading → Option ArgSpec
  | .long a value => if a.takesValue && value.isNone then some a else none
  | .short _ last => last.bind fun (a, attached) => if attached.isEmpty then some a else none

theorem mem_options_of_awaited {r : Reading} {a : ArgSpec} (awaited : r.awaited? = some a) : a ∈ r.options := by
  cases r with
  | long b value =>
      obtain ⟨-, same⟩ := Option.ite_none_right_eq_some.mp awaited
      cases same
      exact List.mem_singleton_self a
  | short switches last =>
      obtain ⟨⟨b, attached⟩, rfl, awaited⟩ := Option.bind_eq_some_iff.mp awaited
      obtain ⟨-, same⟩ := Option.ite_none_right_eq_some.mp awaited
      cases same
      exact List.mem_append_right _ (List.mem_singleton_self a)

/-- What the walk looks at is enough. If the first short name is that of an option with a value, an equals sign tells
that the value is attached; if it is that of a switch, no option behind it waits for the next token. -/
def Plain (token : String) : Reading → Prop
  | .long _ _ | .short _ none => True
  | .short [] (some (_, attached)) => attached = [] ↔ '=' ∉ token.toList
  | .short (_ :: _) (some (_, attached)) => attached ≠ []

end Reading

/-! ## The scan behind an option token -/

/-- What the next token may be after an option. -/
def expectingAfter : (awaited : Option ArgSpec) → Expecting
  | some a => .optionValue a
  | none => .anything

/-- The options that have been read leave the scan waiting for a value of theirs, or for anything. -/
structure Scan.Awaits (s : Scan) (awaited : Option ArgSpec) : Prop where
  expecting : s.expecting = expectingAfter awaited
  trailing : s.trailing = false

section Awaiting

variable {l : Level} {a : ArgSpec} {s s' : Scan}

theorem trailing_settled (settled : settled l s = .ok s') : s'.trailing = s.trailing := by
  rcases settle_eq : settle s with ⟨s₁, _ | cause⟩
  · simp only [Args.settled, settle_eq, Except.ok.injEq] at settled
    subst settled
    unfold settle at settle_eq
    split at settle_eq
    · cases settle_eq
      rfl
    · obtain ⟨rfl, -⟩ := Prod.mk.inj settle_eq
      rfl
  · simp [Args.settled, settle_eq] at settled

theorem awaits_of_take {value : Option RawText} (open_ : s.trailing = false) (taken : take l a value s = .ok s') :
    s'.Awaits none := by
  obtain ⟨s₁, settled, later⟩ := bind_eq_ok_iff.mp taken
  have trailing := (trailing_settled settled).trans open_
  rcases received : receive .commandLine a value s₁.matched with ⟨m, _ | cause⟩
  · rw [received] at later
    cases later
    exact ⟨rfl, trailing⟩
  · rw [received] at later
    cases later

/-- An option waits for the next token if it takes a value and has none. -/
theorem awaits_of_takeOption {long : Bool} {value : Option RawText} (open_ : s.trailing = false)
    (taken : takeOption l a long value s = .ok s') :
    s'.Awaits (if a.takesValue && value.isNone then some a else none) := by
  unfold takeOption at taken
  cases action : a.action with
  | help | version =>
      rw [action] at taken
      obtain ⟨s₁, -, later⟩ := bind_eq_ok_iff.mp taken
      cases later
  | flag | count =>
      rw [action] at taken
      simpa [ArgSpec.takesValue, action, Action.takesValue] using awaits_of_take open_ taken
  | set | append =>
      rw [action] at taken
      cases value with
      | some v => simpa using awaits_of_take open_ taken
      | none =>
          obtain ⟨s₁, settled, later⟩ := bind_eq_ok_iff.mp taken
          cases later
          exact ⟨by simp [ArgSpec.takesValue, action, Action.takesValue, expectingAfter],
            (trailing_settled settled).trans open_⟩

theorem attachedValue?_isNone (attached : RawText) : (attachedValue? attached).isNone = attached.isEmpty := by
  unfold attachedValue?
  split <;> simp_all

/-- Whatever cluster is read, its names are those of options, and the last option waits if nothing is attached. -/
theorem cluster_of_takeShorts {names : RawText} (open_ : s.trailing = false) (taken : takeShorts l names s = .ok s') :
    ∃ switches last, Cluster l names switches last ∧
      (s.Awaits none ∨ names ≠ [] → s'.Awaits (Reading.short switches last).awaited?) := by
  induction names generalizing s with
  | nil =>
      cases taken
      exact ⟨[], none, .done, fun ready => ready.resolve_right (absurd rfl)⟩
  | cons u rest ih =>
      cases u with
      | byte b => cases taken
      | char c =>
          rw [takeShorts] at taken
          dsimp only at taken
          cases found : l.short? c with
          | none =>
              rw [found] at taken
              cases taken
          | some a =>
              rw [found] at taken
              dsimp only at taken
              split at taken
              · next takes =>
                  refine ⟨[], some (a, rest), .valued found takes, fun _ => ?_⟩
                  have awaits := awaits_of_takeOption open_ taken
                  rw [takes, Bool.true_and, attachedValue?_isNone] at awaits
                  exact awaits
              · next alone =>
                  rw [Bool.not_eq_true] at alone
                  cases first : takeOption l a false none s with
                  | error stop =>
                      rw [first] at taken
                      cases taken
                  | ok s₁ =>
                      rw [first] at taken
                      have awaits := awaits_of_takeOption open_ first
                      rw [alone] at awaits
                      obtain ⟨switches, last, cluster, later⟩ := ih awaits.trailing taken
                      exact ⟨a :: switches, last, .switch found alone cluster, fun _ => later (.inl awaits)⟩

/-- Whatever option token is read, it says something to the level. -/
theorem reads_of_takeToken {t : RawText} {rest : List RawText} (open_ : s.trailing = false)
    (option : looksLikeOption t = true) (taken : takeToken l t rest s = .ok s') :
    ∃ r, l.Reads t r ∧ s'.Awaits r.awaited? := by
  unfold takeToken at taken
  rw [open_] at taken
  unfold looksLikeOption at option
  cases dash : dashToken? t with
  | none => simp [dash] at option
  | some d =>
      rw [dash] at taken
      cases d with
      | escape => simp [dash] at option
      | long name value =>
          change takeLong l name value rest s = .ok s' at taken
          unfold takeLong at taken
          cases found : name.toString?.bind l.long? with
          | none =>
              rw [found] at taken
              cases taken
          | some a =>
              rw [found] at taken
              refine ⟨.long a value, .long dash found, ?_⟩
              cases value with
              | none => exact awaits_of_takeOption open_ taken
              | some v =>
                  dsimp only at taken
                  split at taken
                  · exact awaits_of_takeOption open_ taken
                  · cases taken
      | short names =>
          change takeShorts l names s = .ok s' at taken
          obtain ⟨switches, last, cluster, awaits⟩ := cluster_of_takeShorts open_ taken
          obtain ⟨u, others, rfl, -⟩ := eq_of_short dash
          exact ⟨.short switches last, .short dash cluster, awaits (.inr (List.cons_ne_nil u others))⟩

end Awaiting

/-! ## The token behind an option -/

/-- A token is read as the value of an option. -/
def ReadAsValue (l : Level) (a : ArgSpec) (v : RawText) (rest : List RawText) (s : Scan) : Prop :=
  entered? l v s = none ∧
    takeToken l v rest s = .ok { s with pending := some ⟨a, some v⟩, expecting := .anything }

theorem place_le_nextPlace (l : Level) (next : Option RawText) (s : Scan) : s.place ≤ nextPlace l next s := by
  unfold nextPlace
  dsimp only
  repeat' split
  all_goals omega

/-- A value of a positional argument moves on to another place, or more values may follow. -/
theorem moves_of_takeValue {l : Level} {t : RawText} {next : Option RawText} {s s' : Scan}
    (taken : takeValue l t next s = .ok s') : s.place < s'.place ∨ s'.expecting ≠ .anything := by
  have further := place_le_nextPlace l next s
  unfold takeValue at taken
  dsimp only at taken
  split at taken
  · cases taken
  · obtain ⟨s₁, -, later⟩ := bind_eq_ok_iff.mp taken
    split at later
    · cases later
      exact .inr nofun
    · cases later
      exact .inl (Nat.lt_succ_of_le further)

/-- A word is read as the value of the option that is waiting, and of no other. -/
theorem readAsValue_iff {l : Level} {a : ArgSpec} {v : RawText} {rest : List RawText} {s : Scan}
    {awaited : Option ArgSpec} (awaits : s.Awaits awaited) (word : v.head? ≠ some (.char '-')) :
    ReadAsValue l a v rest s ↔ awaited = some a := by
  have plain := dashToken?_of_word word
  cases awaited with
  | some b =>
      have expecting : s.expecting = .optionValue b := awaits.expecting
      simp only [ReadAsValue, entered?, takeToken, awaits.trailing, expecting, plain, Bool.false_eq_true, if_false,
        takeOptionValue, true_and, Except.ok.injEq, Scan.mk.injEq, Option.some.injEq, Pending.mk.injEq, and_true]
  | none =>
      have expecting : s.expecting = .anything := awaits.expecting
      simp only [reduceCtorEq, iff_false]
      rintro ⟨-, taken⟩
      simp only [takeToken, awaits.trailing, expecting, plain, Bool.false_eq_true, if_false] at taken
      rcases moves_of_takeValue taken with further | waiting
      · exact Nat.lt_irrefl _ further
      · exact waiting rfl

end Args

/-! ## What the walk tells -/

open Args

section Walk

variable {globals : List ArgSpec} {token : String} {a : ArgSpec}

theorem takesNext_of_equals (sign : '=' ∈ token.toList) : takesNext globals token.toList = false := by
  simp [takesNext, sign]

/-- Among options with names of their own, the one that is named decides. -/
theorem any_named_eq (named : ArgSpec → Bool) (member : a ∈ globals) (here : named a = true)
    (sole : ∀ b ∈ globals, named b = true → b = a) :
    globals.any (fun b => named b && b.takesValue) = a.takesValue := by
  cases takes : a.takesValue with
  | true => exact List.any_eq_true.mpr ⟨a, member, by rw [here, takes]; rfl⟩
  | false =>
      rw [List.any_eq_false]
      intro b inside both
      obtain ⟨there, gives⟩ := Bool.and_eq_true_iff.mp both
      rw [sole b inside there, takes] at gives
      cases gives

variable (apart : ∀ a ∈ globals, ∀ b ∈ globals, b = a ∨ b.Apart a)
include apart

theorem takesNext_long {name : String} (chars : token.toList = '-' :: '-' :: name.toList)
    (plain : '=' ∉ token.toList) (member : a ∈ globals) (found : a.long = some name) :
    takesNext globals token.toList = a.takesValue := by
  have decided := any_named_eq (·.long == some name) member (by simp [found]) fun b inside same => by
    have same : b.long = some name := by simpa using same
    exact (apart a member b inside).resolve_right fun apart => apart.2.1 name same found
  rw [chars] at plain
  rw [← decided, takesNext, chars, List.contains_eq_mem, decide_eq_false plain]
  simp

theorem takesNext_short {c : Char} {rest : List Char} (chars : token.toList = '-' :: c :: rest) (other : c ≠ '-')
    (member : a ∈ globals) (found : a.short = some c) :
    takesNext globals token.toList = (!token.toList.contains '=' && a.takesValue) := by
  have decided := any_named_eq (·.short == some c) member (by simp [found]) fun b inside same => by
    have same : b.short = some c := by simpa using same
    exact (apart a member b inside).resolve_right fun apart => apart.2.2 c same found
  rw [← decided, takesNext]
  simp [chars]

/-- A long name tells the walk what it tells the reading. -/
theorem takesNext_of_long {l : Level} {name : RawText} {value : Option RawText}
    (dash : dashToken? (RawText.ofString token) = some (.long name value))
    (found : name.toString?.bind l.long? = some a) (member : a ∈ globals) :
    takesNext globals token.toList = (a.takesValue && value.isNone) := by
  obtain ⟨body, units, rest⟩ := eq_of_long dash
  obtain ⟨_, _, chars, first, chars'⟩ := List.map_eq_cons_iff.mp units
  obtain ⟨_, cs, rfl, second, rfl⟩ := List.map_eq_cons_iff.mp chars'
  cases first
  cases second
  rcases rest with ⟨rfl, rfl, split⟩ | ⟨v, rfl, split⟩
  · have absent : '=' ∉ cs := splitOnce_eq_none_iff.mp split
    have name : RawText.toString? (cs.map .char) = some (String.ofList cs) := by
      rw [RawText.toString?_eq_some_iff, RawText.ofString, String.toList_ofList]
    rw [name, Option.bind_some] at found
    have long : a.long = some (String.ofList cs) := by simpa using List.find?_some found
    rw [takesNext_long apart (by rw [chars, String.toList_ofList]) (by simpa [chars] using absent) member long]
    simp
  · have sign : '=' ∈ cs := by
      by_contra absent
      cases split.symm.trans (splitOnce_eq_none_iff.mpr absent)
    rw [takesNext_of_equals (by simp [chars, sign])]
    simp

/-- Of a cluster the walk sees the first name and the equals signs. -/
theorem takesNext_of_cluster {l : Level} {c : Char} {rest : RawText}
    (dash : dashToken? (RawText.ofString token) = some (.short (.char c :: rest))) (found : l.short? c = some a)
    (member : a ∈ globals) : takesNext globals token.toList = (!token.toList.contains '=' && a.takesValue) := by
  obtain ⟨_, _, same, units, other⟩ := eq_of_short dash
  cases same
  obtain ⟨_, _, chars, first, chars'⟩ := List.map_eq_cons_iff.mp units
  obtain ⟨_, cs, rfl, second, -⟩ := List.map_eq_cons_iff.mp chars'
  cases first
  cases second
  have short : a.short = some c := by simpa using List.find?_some found
  exact takesNext_short apart chars (fun same => other (by rw [same])) member short

/-- The walk and the reading tell the same of plain tokens, and of no others. -/
theorem takesNext_iff_awaited {l : Level} {r : Reading} (reads : l.Reads (RawText.ofString token) r)
    (members : ∀ a ∈ r.options, a ∈ globals) :
    (takesNext globals token.toList = true ↔ r.awaited?.isSome) ↔ r.Plain token := by
  cases reads with
  | @long name value a dash found =>
      rw [takesNext_of_long apart dash found (members a (List.mem_singleton_self a))]
      cases takes : a.takesValue <;> cases value <;> simp [Reading.awaited?, Reading.Plain, takes]
  | short dash cluster =>
      cases cluster with
      | done =>
          obtain ⟨u, rest, same, -⟩ := eq_of_short dash
          cases same
      | @valued c a attached found takes =>
          rw [takesNext_of_cluster apart dash found (members a (by simp [Reading.options])), takes]
          cases attached <;> simp [Reading.awaited?, Reading.Plain]
      | switch found alone later =>
          next last c a rest switches =>
          rw [takesNext_of_cluster apart dash found (members a (by simp [Reading.options])), alone]
          cases last with
          | none => simp [Reading.awaited?, Reading.Plain]
          | some last =>
              obtain ⟨b, attached⟩ := last
              cases attached <;> simp [Reading.awaited?, Reading.Plain]

/-- The walk passes over the token behind options exactly if that is read as the value of one of them, as long as the
options are in a plain token. In any other token it errs. -/
theorem takesNext_iff_read {l : Level} {r : Reading} (reads : l.Reads (RawText.ofString token) r)
    (members : ∀ a ∈ r.options, a ∈ globals) {v : RawText} {rest : List RawText} {s s' : Scan}
    (open_ : s.trailing = false) (taken : takeToken l (RawText.ofString token) (v :: rest) s = .ok s')
    (word : v.head? ≠ some (.char '-')) :
    (takesNext globals token.toList = true ↔ ∃ a ∈ r.options, ReadAsValue l a v rest s') ↔ r.Plain token := by
  obtain ⟨r', reads', awaits⟩ := reads_of_takeToken open_ reads.looksLikeOption taken
  cases reads.unique reads'
  have value : (∃ a ∈ r.options, ReadAsValue l a v rest s') ↔ r.awaited?.isSome := by
    simp only [readAsValue_iff awaits word]
    rw [Option.isSome_iff_exists]
    constructor
    · exact fun ⟨a, _, awaited⟩ => ⟨a, awaited⟩
    · exact fun ⟨a, awaited⟩ => ⟨a, Reading.mem_options_of_awaited awaited, awaited⟩
  rw [value]
  exact takesNext_iff_awaited apart reads members

end Walk

/-! ## Two tokens that are not plain -/

def verboseOption : ArgSpec :=
  { id := "verbose", short := some 'v', action := .flag }

def dirOption : ArgSpec :=
  { id := "dir", short := some 'd' }

/-- A switch and an option with a value, both with short names. -/
def shortGlobals : List ArgSpec :=
  [verboseOption, dirOption]

/-- The outermost level, with a command below it. -/
def shortLevel : Level :=
  Interface.level { name := "relayer", about := none, version := none, globals := shortGlobals, needsChild := true
                    children := [{ name := "chains", about := none, args := [], needsChild := false, children := [] }] }
    none

theorem apart_shortGlobals : ∀ a ∈ shortGlobals, ∀ b ∈ shortGlobals, b = a ∨ b.Apart a := by
  simp [shortGlobals, verboseOption, dirOption, ArgSpec.Apart]

/-- A short name alone is a plain token. -/
theorem takesNext_iff_read_alone : takesNext shortGlobals "-d".toList = true ∧ ∃ s',
    takeToken shortLevel (RawText.ofString "-d") [RawText.ofString "/tmp"] .start = .ok s' ∧
      ReadAsValue shortLevel dirOption (RawText.ofString "/tmp") [] s' := by
  have reads : shortLevel.Reads (RawText.ofString "-d") (.short [] (some (dirOption, []))) :=
    .short rfl (.valued rfl rfl)
  have members : ∀ a ∈ (Reading.short [] (some (dirOption, []))).options, a ∈ shortGlobals := by
    simp [Reading.options, shortGlobals]
  have plain : (Reading.short [] (some (dirOption, []))).Plain "-d" := by
    change ([] : RawText) = [] ↔ '=' ∉ "-d".toList
    decide
  have taken : takeToken shortLevel (RawText.ofString "-d") [RawText.ofString "/tmp"] .start =
      .ok { Scan.start with pending := some ⟨dirOption, none⟩, expecting := .optionValue dirOption } := rfl
  have word : (RawText.ofString "/tmp").head? ≠ some (.char '-') := by decide
  refine ⟨rfl, _, taken, ?_⟩
  obtain ⟨a, member, read⟩ :=
    ((takesNext_iff_read apart_shortGlobals reads members rfl taken word).mpr plain).mp rfl
  obtain rfl : a = dirOption := by simpa [Reading.options] using member
  exact read

/-- The walk passes over the token behind an attached value, and it does not pass over the value of an option that
comes after a switch. -/
theorem takesNext_errs :
    (shortLevel.Reads (RawText.ofString "-d/tmp") (.short [] (some (dirOption, RawText.ofString "/tmp"))) ∧
      takesNext shortGlobals "-d/tmp".toList = true ∧ ∃ s',
        takeToken shortLevel (RawText.ofString "-d/tmp") [RawText.ofString "chains"] .start = .ok s' ∧
          ∀ a, ¬ReadAsValue shortLevel a (RawText.ofString "chains") [] s') ∧
    shortLevel.Reads (RawText.ofString "-vd") (.short [verboseOption] (some (dirOption, []))) ∧
      takesNext shortGlobals "-vd".toList = false ∧ ∃ s',
        takeToken shortLevel (RawText.ofString "-vd") [RawText.ofString "/tmp"] .start = .ok s' ∧
          ReadAsValue shortLevel dirOption (RawText.ofString "/tmp") [] s' := by
  constructor
  · refine ⟨.short rfl (.valued rfl rfl), rfl, _, rfl, ?_⟩
    rintro a ⟨passed, -⟩
    cases passed
  · exact ⟨.short rfl (.switch rfl rfl (.valued rfl rfl)), rfl, _, rfl, rfl, rfl⟩

end ChainRelay
