import ChainRelay.Proofs.Command.Sharing
import ChainRelay.Proofs.Command.Widening

/-! # An option that is given once

A level that has received an option reads the tokens after it as it would without the option, as long as none of them
names it again. Only when the level is completed something else may have to stand in for the option.
-/

namespace ChainRelay.Args

/-- The help or the version that is asked for. -/
def Stop.request? : Stop → Option Stop
  | .help l long => some (.help l long)
  | .version => some .version
  | .failed _ => none

/-- What an attempt asks for instead of a result. -/
def asked : Except Stop α → Option Stop
  | .ok _ => none
  | .error stop => stop.request?

/-- Both attempts ask for the same. The first one has a result exactly if the second one has a related result and `P`
holds. -/
structure Follows (P : Prop) (R : α → β → Prop) (x : Except Stop α) (y : Except Stop β) : Prop where
  asked : asked x = asked y
  forth : ∀ a, x = .ok a → P ∧ ∃ b, y = .ok b ∧ R a b
  back : P → ∀ b, y = .ok b → ∃ a, x = .ok a ∧ R a b

section Follows

variable {P : Prop} {α' β' : Type} {R : α → β → Prop} {S : α' → β' → Prop}

theorem follows_ok {a : α} {b : β} (same : R a b) : Follows True R (.ok a) (.ok b) where
  asked := rfl
  forth := by
    intro a' here
    cases here
    exact ⟨trivial, b, rfl, same⟩
  back := by
    intro _ b' here
    cases here
    exact ⟨a, rfl, same⟩

theorem follows_refl (x : Except Stop α) : Follows True Eq x x where
  asked := rfl
  forth := fun a here => ⟨trivial, a, here, rfl⟩
  back := fun _ a here => ⟨a, here, rfl⟩

theorem follows_error {stop stop' : Stop} (same : stop.request? = stop'.request?) :
    Follows P R (.error stop) (.error stop') where
  asked := same
  forth := nofun
  back := nofun

theorem follows_imp {Q : α → β → Prop} {x : Except Stop α} {y : Except Stop β} (first : Follows P R x y)
    (more : ∀ a b, x = .ok a → R a b → Q a b) : Follows P Q x y where
  asked := first.asked
  forth := by
    intro a here
    obtain ⟨needed, b, there, same⟩ := first.forth a here
    exact ⟨needed, b, there, more a b here same⟩
  back := by
    intro needed b there
    obtain ⟨a, here, same⟩ := first.back needed b there
    exact ⟨a, here, more a b here same⟩

theorem follows_bind {x : Except Stop α} {y : Except Stop β} {f : α → Except Stop α'} {k : β → Except Stop β'}
    (first : Follows True R x y) (rest : ∀ a b, R a b → Follows P S (f a) (k b)) :
    Follows P S (x >>= f) (y >>= k) := by
  cases x with
  | ok a =>
      obtain ⟨-, b, rfl, same⟩ := first.forth a rfl
      exact rest a b same
  | error stop =>
      cases y with
      | error stop' => exact follows_error first.asked
      | ok b =>
          obtain ⟨a, here, -⟩ := first.back trivial b rfl
          cases here

theorem follows_received (l : Level) (r r' : Matches × Option Cause) (f f' : Matches → α) (Q : α → α → Prop) :
    r.2 = r'.2 → Q (f r.1) (f' r'.1) → Follows True Q
      (match r with
        | (m, none) => .ok (f m)
        | (_, some cause) => .error (refuse l cause))
      (match r' with
        | (m, none) => .ok (f' m)
        | (_, some cause) => .error (refuse l cause)) := by
  intro same related
  obtain ⟨m, cause⟩ := r
  obtain ⟨m', cause'⟩ := r'
  cases same
  cases cause with
  | none => exact follows_ok related
  | some cause => exact follows_error rfl

theorem asked_of_refuses {x : Except Stop α} (refuses : Refuses x) : asked x = none := by
  cases x with
  | ok a => rfl
  | error stop =>
      obtain ⟨f, rfl⟩ := refuses stop rfl
      rfl

theorem asked_bind {x : Except Stop α} {f : α → Except Stop β} (refuses : ∀ a, Refuses (f a)) :
    asked (x >>= f) = asked x := by
  cases x with
  | ok a => exact asked_of_refuses (refuses a)
  | error stop => rfl

/-- What comes after the attempts asks for nothing. -/
theorem follows_then {x : Except Stop α} {y : Except Stop β} {f : α → Except Stop α'} {k : β → Except Stop β'}
    (first : Follows P R x y) (refuses : ∀ a, Refuses (f a)) (refuses' : ∀ b, Refuses (k b))
    (rest : ∀ a b, R a b → Follows True S (f a) (k b)) : Follows P S (x >>= f) (y >>= k) where
  asked := by rw [asked_bind refuses, asked_bind refuses', first.asked]
  forth := by
    intro c done
    obtain ⟨a, here, later⟩ := bind_eq_ok_iff.mp done
    obtain ⟨more, b, there, same⟩ := first.forth a here
    obtain ⟨-, d, last, related⟩ := (rest a b same).forth c later
    exact ⟨more, d, bind_eq_ok_iff.mpr ⟨b, there, last⟩, related⟩
  back := by
    intro more d done
    obtain ⟨b, there, later⟩ := bind_eq_ok_iff.mp done
    obtain ⟨a, here, same⟩ := first.back more b there
    obtain ⟨c, last, related⟩ := (rest a b same).back trivial d later
    exact ⟨c, bind_eq_ok_iff.mpr ⟨a, here, last⟩, related⟩

end Follows

/-- The matches agree but for an id, which has something else in each of them. -/
structure Matches.Differ (id : String) (x y : Option Received) (m m' : Matches) : Prop where
  others : m.outside [id] = m'.outside [id]
  first : m.get? id = x
  second : m'.get? id = y

/-- The scans agree but for an id, which is awaited by neither of them. -/
structure Scan.Differ (id : String) (x y : Option Received) (trailing : Bool) (s s' : Scan) : Prop where
  matched : s.matched.Differ id x y s'.matched
  pending : s'.pending = s.pending
  expecting : s'.expecting = s.expecting
  place : s'.place = s.place
  first : s.trailing = trailing
  second : s'.trailing = trailing
  waiting : ∀ p, s.pending = some p → p.arg.id ≠ id
  wanted : ∀ a, s.expecting = .optionValue a → a.id ≠ id

theorem settled_none {l : Level} {s : Scan} (pending : s.pending = none) : settled l s = .ok s := by
  simp only [settled, settle, pending]

theorem settled_some {l : Level} {s : Scan} {p : Pending} (pending : s.pending = some p) :
    settled l s = match receive .commandLine p.arg p.value s.matched with
      | (m, none) => .ok { s with matched := m, pending := none }
      | (_, some cause) => .error (refuse l cause) := by
  simp only [settled, settle, pending]
  rcases receive .commandLine p.arg p.value s.matched with ⟨m, _ | cause⟩ <;> rfl

section Differ

variable {id : String} {x y : Option Received} {trailing : Bool}

theorem Matches.Differ.erase {m m' : Matches} (differ : m.Differ id x y m') {other : String} (apart : other ≠ id) :
    (m.erase other).Differ id x y (m'.erase other) where
  others := by rw [outside_erase, outside_erase, differ.others]
  first := by rw [get?_erase apart, differ.first]
  second := by rw [get?_erase apart, differ.second]

theorem Matches.Differ.put {m m' : Matches} (differ : m.Differ id x y m') {r : Received} (apart : r.id ≠ id) :
    (m.put r).Differ id x y (m'.put r) where
  others := by rw [outside_put (by simpa using apart), outside_put (by simpa using apart), differ.others]
  first := by rw [get?_put, if_neg apart, differ.first]
  second := by rw [get?_put, if_neg apart, differ.second]

theorem Matches.Differ.get? {m m' : Matches} (differ : m.Differ id x y m') {other : String} (apart : other ≠ id) :
    m.get? other = m'.get? other :=
  get?_congr (by simpa using apart) differ.others

/-- Another argument is received, or refused for the same reason. -/
theorem Matches.Differ.receive {m m' : Matches} (differ : m.Differ id x y m') {a : ArgSpec} (other : a.id ≠ id)
    (source : Source) (value : Option RawText) :
    (receive source a value m).2 = (receive source a value m').2 ∧
      (receive source a value m).1.Differ id x y (receive source a value m').1 := by
  have base : Matches.Differ id x y (if a.action = .count then m.erase a.id else m)
      (if a.action = .count then m'.erase a.id else m') := by
    split
    · exact differ.erase other
    · exact differ
  unfold Args.receive
  dsimp only
  rw [← differ.get? other]
  split
  · exact ⟨rfl, differ⟩
  · split
    · exact ⟨rfl, differ.erase other⟩
    · split
      · exact ⟨rfl, base.put other⟩
      · exact ⟨rfl, base.put other⟩

variable {s s' : Scan} (differ : s.Differ id x y trailing s') (l : Level)
include differ

theorem Scan.Differ.settled : Follows True (Scan.Differ id x y trailing) (settled l s) (settled l s') := by
  cases pending : s.pending with
  | none =>
      rw [settled_none pending, settled_none (differ.pending.trans pending)]
      exact follows_ok differ
  | some p =>
      obtain ⟨same, received⟩ := differ.matched.receive (differ.waiting p pending) .commandLine p.value
      rw [settled_some pending, settled_some (differ.pending.trans pending)]
      apply follows_received l _ _ _ _ _ same
      exact { differ with matched := received, pending := rfl, waiting := by simp }

theorem Scan.Differ.take {a : ArgSpec} (other : a.id ≠ id) (value : Option RawText) :
    Follows True (Scan.Differ id x y trailing) (take l a value s) (take l a value s') := by
  apply follows_bind (differ.settled l)
  intro s s' differ
  obtain ⟨same, received⟩ := differ.matched.receive other .commandLine value
  apply follows_received l _ _ _ _ _ same
  exact { differ with matched := received, expecting := rfl, wanted := by simp }

theorem Scan.Differ.takeOption {a : ArgSpec} (other : a.id ≠ id) (long : Bool) (value : Option RawText) :
    Follows True (Scan.Differ id x y trailing) (takeOption l a long value s) (takeOption l a long value s') := by
  unfold Args.takeOption
  cases a.action with
  | help | version => exact follows_bind (differ.settled l) fun _ _ _ => follows_error rfl
  | flag | count => exact differ.take l other none
  | set | append =>
      cases value with
      | some v => exact differ.take l other (some v)
      | none =>
          apply follows_bind (differ.settled l)
          intro s s' differ
          apply follows_ok
          refine { differ with pending := rfl, expecting := rfl, waiting := ?_, wanted := ?_ }
          · intro p here
            cases here
            exact other
          · intro b here
            cases here
            exact other

end Differ

/-- The option has a long name and no short one. -/
structure ArgSpec.Long (g : ArgSpec) (flag : String) : Prop where
  long : g.long = some flag
  short : g.short = none

/-- The level has the argument, and no other one that is called like it. -/
structure Level.Sole (l : Level) (g : ArgSpec) : Prop where
  member : g ∈ l.args
  apart : ∀ a ∈ l.args, a = g ∨ a.Apart g

section Sole

variable {l : Level} {g : ArgSpec} (sole : l.Sole g)
include sole

theorem Level.Sole.eq_of_id {a : ArgSpec} (member : a ∈ l.args) (same : a.id = g.id) : a = g :=
  (sole.apart a member).resolve_right fun apart => apart.1 same

theorem Level.Sole.long? {flag : String} (long : g.long = some flag) : l.long? flag = some g := by
  have present : (l.long? flag).isSome := by
    rw [Level.long?, List.find?_isSome]
    exact ⟨g, sole.member, by simp [long]⟩
  obtain ⟨a, found⟩ := Option.isSome_iff_exists.mp present
  have named : a.long = some flag := by simpa using List.find?_some found
  have same := (sole.apart a (List.mem_of_find?_eq_some found)).resolve_right
    fun apart => apart.2.1 flag named long
  rw [found, same]

end Sole

/-- The option is shared, and no other argument of the level is called like it. -/
structure Level.Knows (l : Level) (g : ArgSpec) : Prop where
  shared : g ∈ l.shared
  apart : ∀ a ∈ l.args, a = g ∨ a.Apart g

section Knows

variable {l : Level} {g : ArgSpec} {flag : String} (knows : l.Knows g)
include knows

theorem Level.Knows.sole : l.Sole g where
  member := List.mem_append_right _ (List.mem_append_left _ (List.mem_append_right _ knows.shared))
  apart := knows.apart

theorem Level.Knows.eq_of_id {a : ArgSpec} (member : a ∈ l.args) (same : a.id = g.id) : a = g :=
  knows.sole.eq_of_id member same

variable (long : g.Long flag)
include long

theorem Level.Knows.long? : l.long? flag = some g :=
  knows.sole.long? long.long

theorem Level.Knows.other_of_long {name : String} {a : ArgSpec} (found : l.long? name = some a)
    (other : name ≠ flag) : a.id ≠ g.id := by
  intro same
  obtain rfl := knows.eq_of_id (List.mem_of_find?_eq_some found) same
  have named : a.long = some name := by simpa using List.find?_some found
  rw [long.long, Option.some.injEq] at named
  exact other named.symm

theorem Level.Knows.other_of_short {c : Char} {a : ArgSpec} (found : l.short? c = some a) : a.id ≠ g.id := by
  intro same
  obtain rfl := knows.eq_of_id (List.mem_of_find?_eq_some found) same
  simpa [long.short] using List.find?_some found

theorem Level.Knows.other_of_positional {a : ArgSpec} (member : a ∈ l.positionals) : a.id ≠ g.id := by
  intro same
  obtain ⟨inside, positional⟩ := List.mem_filter.mp member
  obtain rfl := knows.eq_of_id inside same
  simp [ArgSpec.isPositional, long.long] at positional

end Knows

/-- The token names the option of a long name, with a value or without. -/
def gives (flag : String) (t : RawText) : Bool :=
  match dashToken? t with
  | some (.long name _) => name.toString? == some flag
  | _ => false

/-- The token that ends the options. -/
def escape : RawText :=
  RawText.ofString "--"

theorem eq_escape {t : RawText} (dashes : dashToken? t = some .escape) : t = escape := by
  unfold dashToken? at dashes
  split at dashes
  · rfl
  · split at dashes <;> cases dashes
  · cases dashes
  · cases dashes

theorem request?_refuseLong (l : Level) (name : RawText) (rest : List RawText) (s : Scan) :
    (refuseLong l name rest s).request? = none := by
  unfold refuseLong
  rcases settle s with ⟨s, cause⟩
  rfl

theorem request?_refuseValue (l : Level) (t : RawText) (s : Scan) : (refuseValue l t s).request? = none := by
  unfold refuseValue
  dsimp only
  repeat' split
  all_goals rfl

section Token

variable {l : Level} {g : ArgSpec} {flag : String} (knows : l.Knows g) (long : g.Long flag)
  {x y : Option Received} {trailing : Bool} {s s' : Scan} (differ : s.Differ g.id x y trailing s')
include knows long differ

theorem takeLong_differ {name : RawText} (other : name.toString? ≠ some flag) (value : Option RawText)
    (rest : List RawText) :
    Follows True (Scan.Differ g.id x y trailing) (takeLong l name value rest s) (takeLong l name value rest s') := by
  unfold takeLong
  cases found : name.toString?.bind l.long? with
  | none =>
      apply follows_error
      rw [request?_refuseLong, request?_refuseLong]
  | some a =>
      obtain ⟨text, named, here⟩ := Option.bind_eq_some_iff.mp found
      have apart := knows.other_of_long long here fun same => other (same ▸ named)
      cases value with
      | none => exact differ.takeOption l apart true none
      | some v =>
          dsimp only
          split
          · exact differ.takeOption l apart true (some v)
          · exact follows_error rfl

theorem takeShorts_differ (cluster : RawText) :
    Follows True (Scan.Differ g.id x y trailing) (takeShorts l cluster s) (takeShorts l cluster s') := by
  induction cluster generalizing s s' with
  | nil => exact follows_ok differ
  | cons u rest ih =>
      cases u with
      | byte b => exact follows_error rfl
      | char c =>
          rw [takeShorts, takeShorts]
          dsimp only
          cases found : l.short? c with
          | none => exact follows_error rfl
          | some a =>
              have apart := knows.other_of_short long found
              dsimp only
              split
              · exact differ.takeOption l apart false _
              · have both := follows_bind (differ.takeOption l apart false none) fun _ _ differ => ih differ
                cases first : takeOption l a false none s <;> cases second : takeOption l a false none s' <;>
                  rw [first, second] at both <;> exact both

theorem takeValue_differ (t : RawText) (next : Option RawText) :
    Follows True (Scan.Differ g.id x y trailing) (takeValue l t next s) (takeValue l t next s') := by
  have place : nextPlace l next s' = nextPlace l next s := by
    unfold nextPlace
    rw [differ.place]
  unfold takeValue
  rw [place]
  dsimp only
  cases found : l.positionals[nextPlace l next s]? with
  | none =>
      apply follows_error
      rw [request?_refuseValue, request?_refuseValue]
  | some a =>
      have apart := knows.other_of_positional long (List.mem_of_getElem? found)
      apply follows_bind (differ.settled l)
      intro s s' differ
      have waiting : ∀ p : Pending, some ⟨a, some t⟩ = some p → p.arg.id ≠ g.id := by
        intro p here
        cases here
        exact apart
      split
      · exact follows_ok { differ with pending := rfl, expecting := rfl, place := rfl, waiting, wanted := by simp }
      · exact follows_ok { differ with pending := rfl, expecting := rfl, place := rfl, waiting, wanted := by simp }

/-- A token that does not name the option changes both scans alike. -/
theorem takeToken_differ {t : RawText} (silent : trailing = true ∨ gives flag t = false) (rest : List RawText) :
    Follows True (Scan.Differ g.id x y (trailing || t == escape)) (takeToken l t rest s) (takeToken l t rest s') := by
  unfold takeToken
  rw [differ.second, differ.first]
  cases trailing with
  | true =>
      simp only [if_true, Bool.true_or]
      exact takeValue_differ knows long differ t rest.head?
  | false =>
      simp only [Bool.false_eq_true, if_false, Bool.false_or]
      have ordinary (other : dashToken? t ≠ some .escape) : (t == escape) = false :=
        beq_false_of_ne fun same => other (congrArg dashToken? same)
      cases dash : dashToken? t with
      | none =>
          rw [ordinary (by simp [dash]), differ.expecting]
          cases expecting : s.expecting with
          | optionValue a =>
              apply follows_ok
              refine
                { differ with pending := rfl, expecting := rfl, waiting := ?_, wanted := by simp [takeOptionValue] }
              intro p here
              cases here
              exact differ.wanted a expecting
          | anything | moreValues => exact takeValue_differ knows long differ t rest.head?
      | some token =>
          cases token with
          | escape =>
              obtain rfl := eq_escape dash
              exact follows_ok { differ with first := rfl, second := rfl }
          | long name value =>
              have other : name.toString? ≠ some flag := by simpa [gives, dash] using silent
              rw [ordinary (by simp [dash])]
              exact takeLong_differ knows long differ other value rest
          | short cluster =>
              rw [ordinary (by simp [dash])]
              exact takeShorts_differ knows long differ cluster

end Token

end ChainRelay.Args
