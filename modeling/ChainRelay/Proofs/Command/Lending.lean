import ChainRelay.Proofs.Args.Dashes
import ChainRelay.Proofs.Command.Extension
import ChainRelay.Proofs.Command.Omission

/-! # An option among the names of commands

An option may stand before, between and right after the names of a path. One of the levels that the names enter gains
it, and all the others are read as they would be without it.
-/

namespace ChainRelay

open Args

namespace Args

/-- The token that gives an option its value. -/
def optionToken (flag value : String) : RawText :=
  RawText.ofString ("--" ++ flag ++ "=" ++ value)

/-- The option holds the one value that the token gives it. -/
structure ArgSpec.Given (g : ArgSpec) (flag value : String) : Prop where
  long : g.Long flag
  plain : '=' ∉ flag.toList
  action : g.action = .set
  admitted : checkValue g (RawText.ofString value) = .ok ()

/-- What is received from the token. -/
def ArgSpec.received (g : ArgSpec) (value : String) : Received :=
  { id := g.id, kind := g.kind, source := .commandLine, held := .values [RawText.ofString value] }

theorem dashToken?_optionToken {flag : String} (plain : '=' ∉ flag.toList) (value : String) :
    dashToken? (optionToken flag value) = some (.long (RawText.ofString flag) (some (RawText.ofString value))) := by
  have units : optionToken flag value =
      .char '-' :: .char '-' :: (flag.toList.map .char ++ .char '=' :: RawText.ofString value) := by
    simp [optionToken, RawText.ofString]
  have split := splitOnce_append plain (RawText.ofString value)
  obtain ⟨u, tail, same⟩ := List.exists_cons_of_ne_nil (List.append_ne_nil_of_right_ne_nil (flag.toList.map .char)
    (List.cons_ne_nil (.char '=') (RawText.ofString value)))
  rw [same] at split
  rw [units, same]
  simp only [dashToken?, split]
  rfl

/-- The scan after a token that gives an option its value. -/
def Scan.given (g : ArgSpec) (value : String) : Scan :=
  { Scan.start with matched := [g.received value] }

theorem takeToken_optionToken {l : Level} {g : ArgSpec} {flag value : String} (knows : l.Knows g)
    (given : g.Given flag value) (rest : List RawText) :
    takeToken l (optionToken flag value) rest .start = .ok (.given g value) := by
  have found : (RawText.ofString flag).toString?.bind l.long? = some g := by
    rw [RawText.toString?_ofString]
    exact knows.long? given.long
  have takes : g.takesValue = true := by simp [ArgSpec.takesValue, Action.takesValue, given.action]
  have received : receive .commandLine g (some (RawText.ofString value)) [] = ([g.received value], none) := by
    rw [receive_absent rfl]
    simp [holdValue, given.action, given.admitted, ArgSpec.received, Except.map]
  have taken : take l g (some (RawText.ofString value)) .start = .ok (.given g value) := by
    apply bind_eq_ok_iff.mpr
    refine ⟨.start, rfl, ?_⟩
    simp only [Scan.start, received]
    rfl
  have open_ : Scan.start.trailing = false := rfl
  simp only [takeToken, open_, Bool.false_eq_true, if_false, dashToken?_optionToken given.plain, takeLong, found, takes,
    if_true, takeOption, given.action]
  exact taken

theorem differ_fresh {id : String} {x y : Option Received} {m m' : Matches} (differ : m.Differ id x y m') :
    Scan.Differ id x y false { Scan.start with matched := m } { Scan.start with matched := m' } where
  matched := differ
  pending := rfl
  expecting := rfl
  place := rfl
  first := rfl
  second := rfl
  waiting := by simp [Scan.start]
  wanted := by simp [Scan.start]

theorem differ_start (id : String) : Scan.start.Differ id none none false .start :=
  differ_fresh (m := []) ⟨rfl, rfl, rfl⟩

theorem differ_given (g : ArgSpec) (value : String) :
    Scan.start.Differ g.id none (some (g.received value)) false (.given g value) :=
  differ_fresh (m := []) ⟨by simp [Matches.outside, ArgSpec.received], rfl,
    by simp [Matches.get?, ArgSpec.received]⟩

theorem ofString_ne_escape {name : String} (undashed : ¬isDashed name) : RawText.ofString name ≠ escape := by
  intro same
  have plain := Node.dashToken?_ofString undashed
  rw [same] at plain
  cases plain

theorem silent_cons {flag name : String} (undashed : ¬isDashed name) {rest : List RawText}
    (silent : Silent flag false rest) : Silent flag false (RawText.ofString name :: rest) := by
  right
  intro t member
  rw [List.takeWhile_cons_of_pos (by simpa using ofString_ne_escape undashed), List.mem_cons] at member
  cases member with
  | inl here => simp [here, gives, Node.dashToken?_ofString undashed]
  | inr later => exact silent.resolve_left Bool.false_ne_true t later

end Args

variable {H : Type u}

namespace Node

/-- All commands below leave the option alone, and none of them is named like an option. -/
structure Spares (n : Node H) (g : ArgSpec) : Prop where
  undashed : n.Undashed
  apart : ∀ p c, n.claimAt p = some c → ∀ a ∈ c.args, a.Apart g
  help : helpOption.Apart g

theorem Spares.child {n child : Node H} {g : ArgSpec} (spares : n.Spares g) {name : String}
    (found : n.child? name = some child) : child.Spares g where
  undashed := spares.undashed.child found
  help := spares.help
  apart := by
    intro p c claimed
    apply spares.apart (name :: p)
    rw [claimAt_cons, found]
    exact claimed

/-- The option is known below as well. -/
theorem Spares.knows {n child : Node H} {g : ArgSpec} (spares : n.Spares g) {name : String}
    (found : n.child? name = some child) {l : Level} (knows : l.Knows g) :
    (l.enter (child.command name)).Knows g := by
  have below := spares.child found
  have own : ∀ a ∈ (child.command name).args, a.Apart g := by
    intro a member
    cases claimed : child.claim with
    | none => simp [command, claimed] at member
    | some c => exact below.apart [] c claimed a (by simpa [command, claimed] using member)
  constructor
  · apply List.mem_filter.mpr
    refine ⟨knows.shared, ?_⟩
    simp only [Bool.not_eq_true', List.any_eq_false, beq_iff_eq]
    exact fun a member => (own a member).1
  · intro a member
    rcases List.mem_append.mp member with new | lent
    · exact .inr (own a new)
    · rcases Level.mem_lent_enter lent with old | rfl
      · exact knows.apart a old
      · exact .inr spares.help

/-- No argument on the way to a path is of account to the option, nor the option to any of them. -/
structure Overlooks (n : Node H) (l : Level) (p : CommandPath) (g : ArgSpec) : Prop where
  plain : g.Plain
  lent : ∀ a ∈ l.lent, a.Ignores g.id
  claims : ∀ q c, q <+: p → n.claimAt q = some c → ∀ a ∈ c.args, a.Ignores g.id

theorem Overlooks.ignores {n : Node H} {l : Level} {p : CommandPath} {g : ArgSpec} (overlooks : n.Overlooks l p g)
    (shows : n.Shows l) : l.Ignores g where
  plain := overlooks.plain
  ignored := shows.forall_args overlooks.lent fun c => overlooks.claims [] c List.nil_prefix

theorem Overlooks.enter {n child : Node H} {l : Level} {name : String} {rest : CommandPath} {g : ArgSpec}
    (overlooks : n.Overlooks l (name :: rest) g) (shows : n.Shows l) (found : n.child? name = some child) :
    child.Overlooks (l.enter (child.command name)) rest g where
  plain := overlooks.plain
  lent := forall_lent_enter ⟨rfl, List.not_mem_nil, List.not_mem_nil⟩ (overlooks.ignores shows).ignored
  claims := forall_claims_enter found overlooks.claims

theorem Undashed.plain {n child : Node H} (undashed : n.Undashed) {name : String} (found : n.child? name = some child) :
    ¬isDashed name := by
  apply undashed [] name
  rw [List.nil_append, get?_singleton, found]
  rfl

/-- A name that enters a command does not end the options. -/
theorem Shows.silent_enter {n : Node H} {l : Level} (shows : n.Shows l) (undashed : n.Undashed) {flag : String}
    {t : RawText} {s : Scan} {c : Command} (entered : entered? l t s = some c) {rest : List RawText}
    (silent : Silent flag s.trailing (t :: rest)) : Silent flag false rest := by
  have open_ : s.trailing = false := by
    unfold entered? at entered
    split at entered
    · next trailing _ => exact trailing
    · cases entered
  obtain ⟨name, child, text, found, -⟩ := shows.entered entered
  have ordinary := ofString_ne_escape (undashed.plain found)
  have later := silent.tail
  rwa [open_, RawText.toString?_eq_some_iff.mp text, beq_false_of_ne ordinary] at later

/-- The names of commands give no option. -/
theorem Undashed.silent_names {n deepest : Node H} (undashed : n.Undashed) {names : List String}
    (reached : n.get? names = some deepest) {flag : String} {rest : List RawText} (silent : Silent flag false rest) :
    Silent flag false (names.map RawText.ofString ++ rest) := by
  induction names generalizing n with
  | nil => exact silent
  | cons name names ih =>
      obtain ⟨child, found, below⟩ := Option.bind_eq_some_iff.mp reached
      exact silent_cons (undashed.plain found) (ih (undashed.child found) below)

/-- What is read without the option has no value of it from the command line. -/
theorem Shows.not_given {n : Node H} {l : Level} (shows : n.Shows l) {g : ArgSpec} (spares : n.Spares g)
    (knows : l.Knows g) {flag : String} (long : g.Long flag) {trailing : Bool} {tokens : List RawText}
    (silent : Silent flag trailing tokens) {s : Scan} (without : s.Differ g.id none none trailing s) {chain : Chain}
    (read : readLevel l tokens s = .ok chain) :
    ∀ entry ∈ chain, ∀ q ∈ entry.2, q.id = g.id → q.source ≠ .commandLine := by
  induction tokens generalizing n l trailing s chain with
  | nil =>
      obtain ⟨m, completed, done⟩ := bind_eq_ok_iff.mp read
      cases done
      rw [List.forall_mem_singleton]
      exact complete_not_given knows without completed
  | cons t rest ih =>
      rw [readLevel] at read
      cases entered : entered? l t s with
      | none =>
          simp only [entered] at read
          obtain ⟨s₁, taken, later⟩ := bind_eq_ok_iff.mp read
          obtain ⟨-, s₂, again, differ⟩ := (takeToken_differ knows long without silent.head rest).forth s₁ taken
          rw [taken, Except.ok.injEq] at again
          subst again
          exact ih shows spares knows silent.tail differ later
      | some c =>
          obtain ⟨name, child, -, found, rfl⟩ := shows.entered entered
          simp only [entered] at read
          obtain ⟨below, deeper, read⟩ := bind_eq_ok_iff.mp read
          obtain ⟨m, completed, done⟩ := bind_eq_ok_iff.mp read
          cases done
          rw [List.forall_mem_cons]
          refine ⟨complete_not_given knows without completed, ?_⟩
          have later := shows.silent_enter spares.undashed entered (without.first ▸ silent)
          exact ih (shows_enter child name l) (spares.child found) (spares.knows found knows) later
            (differ_start g.id) deeper

end Node

namespace Args.Chain

/-- The chains agree but for one level, which has gained an option in the second one; the levels below have no value
of it from the command line. -/
inductive Lends (id : String) (r : Received) : Chain → Chain → Prop where
  | here {l : Level} {m m' : Matches} {below : Chain} (gains : m.Gains id r m')
      (without : ∀ entry ∈ below, ∀ q ∈ entry.2, q.id = id → q.source ≠ .commandLine) :
      Lends id r ((l, m) :: below) ((l, m') :: below)
  | later {l : Level} {m : Matches} {chain chain' : Chain} (lends : Lends id r chain chain') :
      Lends id r ((l, m) :: chain) ((l, m) :: chain')

end Args.Chain

namespace Node

section Places

variable {n deepest : Node H} {l : Level} (shows : n.Shows l) {g : ArgSpec} (spares : n.Spares g) (knows : l.Knows g)
  {flag value : String} (given : g.Given flag value)
include shows spares knows given

theorem Shows.readLevel_option (tokens : List RawText) :
    readLevel l (optionToken flag value :: tokens) .start = readLevel l tokens (.given g value) := by
  have dashed : isDashed ("--" ++ flag ++ "=" ++ value) := by simp [isDashed]
  have passed : entered? l (optionToken flag value) .start = none :=
    spares.undashed.entered?_eq_none shows (RawText.toString?_ofString _) dashed .start
  rw [readLevel]
  simp only [passed, takeToken_optionToken knows given]
  rfl

/-- An option in front is gained by the first level. -/
theorem Shows.readLevel_front (ignores : l.Ignores g) {tokens : List RawText} (silent : Silent flag false tokens) :
    Follows g.Omissible (Chain.Lends g.id (g.received value)) (readLevel l tokens .start)
      (readLevel l (optionToken flag value :: tokens) .start) := by
  rw [shows.readLevel_option spares knows given]
  apply follows_imp (readLevel_follows knows ignores given.long rfl silent (differ_given g value))
  rintro chain chain' read ⟨m, m', below, rfl, rfl, gains⟩
  have without := shows.not_given spares knows given.long silent (differ_start g.id) read
  exact .here gains (List.forall_mem_cons.mp without).2

variable {p : CommandPath} (reached : n.get? p = some deepest) (overlooks : n.Overlooks l p g) {rest : List RawText}
  (silent : Silent flag false rest) {place : Nat}
include reached overlooks silent

/-- Wherever the option stands among the names, one level gains it, and nothing else changes. -/
theorem Shows.readLevel_places (inside : place ≤ p.length) :
    Follows g.Omissible (Chain.Lends g.id (g.received value))
      (readLevel l (p.map RawText.ofString ++ rest) .start)
      (readLevel l ((p.map RawText.ofString).insertIdx place (optionToken flag value) ++ rest) .start) := by
  induction p generalizing n l place with
  | nil =>
      obtain rfl := Nat.le_zero.mp inside
      exact shows.readLevel_front spares knows given (overlooks.ignores shows) silent
  | cons name names ih =>
      cases place with
      | zero =>
          exact shows.readLevel_front spares knows given (overlooks.ignores shows)
            (spares.undashed.silent_names reached silent)
      | succ place =>
          obtain ⟨child, found, below⟩ := Option.bind_eq_some_iff.mp reached
          rw [List.map_cons, List.insertIdx_succ_cons, List.cons_append, List.cons_append,
            shows.readLevel_name found, shows.readLevel_name found]
          have deeper := ih (shows_enter child name l) (spares.child found) (spares.knows found knows) below
            (overlooks.enter shows found) (Nat.le_of_succ_le_succ inside)
          apply follows_then deeper
          · exact fun chain => refuses_bind (refuses_complete l true .start) fun m => refuses_ok _
          · exact fun chain => refuses_bind (refuses_complete l true .start) fun m => refuses_ok _
          · intro chain chain' lends
            apply follows_bind (follows_refl _)
            rintro m _ rfl
            exact follows_ok (.later lends)

/-- Below the outermost level there is always one that is completed without the option. -/
theorem Shows.omissible_of_places (inside : place ≤ p.length) (named : p ≠ []) {chain : Chain}
    (read : readLevel l ((p.map RawText.ofString).insertIdx place (optionToken flag value) ++ rest) .start =
      .ok chain) : g.Omissible := by
  cases p with
  | nil => exact absurd rfl named
  | cons name names =>
      obtain ⟨child, found, below⟩ := Option.bind_eq_some_iff.mp reached
      cases place with
      | zero =>
          have entered : entered? l (RawText.ofString name) (.given g value) = some (child.command name) := by
            change namedChild? l (RawText.ofString name) = _
            rw [namedChild?, RawText.toString?_ofString, Option.bind_some, shows.child?, found, Option.map_some]
          rw [List.insertIdx_zero, List.cons_append, shows.readLevel_option spares knows given, List.map_cons,
            List.cons_append, readLevel] at read
          simp only [entered] at read
          obtain ⟨chain', deeper, -⟩ := bind_eq_ok_iff.mp read
          have below_ := spares.child found
          have first := (shows_enter child name l).readLevel_front below_ (spares.knows found knows) given
            ((overlooks.enter shows found).ignores (shows_enter child name l))
            (below_.undashed.silent_names below silent)
          exact (first.forth chain' deeper).1
      | succ place =>
          rw [List.map_cons, List.insertIdx_succ_cons, List.cons_append, shows.readLevel_name found] at read
          obtain ⟨deeper, -, read⟩ := bind_eq_ok_iff.mp read
          obtain ⟨m, completed, -⟩ := bind_eq_ok_iff.mp read
          exact complete_omissible knows (overlooks.ignores shows) (differ_start g.id) completed

end Places

end Node

end ChainRelay
