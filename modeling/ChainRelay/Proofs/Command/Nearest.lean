import Mathlib
import ChainRelay.Proofs.Args.Entrances
import ChainRelay.Proofs.Command.Selection

/-! # The nearest command and the commands that were entered

A refusal of a command line points to the command at which a walk over the tokens ends. The walk knows
the global options only. It ends where the reading of the command line ended, if both take the tokens
apart in the same way; the conditions for that concern one token at a time.
-/

namespace ChainRelay

open Args

variable {H : Type u}

/-- A token that the walk takes for an option. -/
abbrev isDashed (token : String) : Prop :=
  token.toList.head? = some '-'

/-- The first token that the walk does not pass over. -/
@[local simp]
def firstWord? (globals : List ArgSpec) : (skip : Bool) → List RawText → Option RawText
  | _, [] => none
  | true, _ :: rest => firstWord? globals false rest
  | false, t :: rest =>
    match t.toString? with
    | none => some t
    | some token => if isDashed token then firstWord? globals (takesNext globals token.toList) rest else some t

/-- The walk keeps pace with the reading of a command line. -/
inductive Paced (globals : List ArgSpec) : Level → List RawText → Scan → Prop where
  /-- Nothing more is entered, and the next word is no name of a command. -/
  | quiet {l : Level} {tokens : List RawText} {s : Scan} (silent : entrances l tokens s = [])
      (unnamed : ∀ w, firstWord? globals false tokens = some w → namedChild? l w = none) :
      Paced globals l tokens s
  | enter {l : Level} {t : RawText} {rest : List RawText} {s : Scan} {c : Command}
      (entered : entered? l t s = some c) (below : Paced globals (l.enter c) rest .start) :
      Paced globals l (t :: rest) s
  /-- An option is read, and the walk passes over it alone. -/
  | option {l : Level} {t : RawText} {rest : List RawText} {s s' : Scan} {token : String}
      (text : t.toString? = some token) (dashed : isDashed token) (alone : takesNext globals token.toList = false)
      (taken : takeToken l t rest s = .ok s') (later : Paced globals l rest s') : Paced globals l (t :: rest) s
  /-- An option is read and then a value, and the walk passes over both. -/
  | optionValue {l : Level} {t v : RawText} {rest : List RawText} {s s' s'' : Scan} {token : String}
      (text : t.toString? = some token) (dashed : isDashed token) (both : takesNext globals token.toList = true)
      (taken : takeToken l t (v :: rest) s = .ok s') (value : entered? l v s' = none)
      (takenValue : takeToken l v rest s' = .ok s'') (later : Paced globals l rest s'') :
      Paced globals l (t :: v :: rest) s

namespace Node

/-- The commands to which the walk goes down, each with the tokens that are left for it. -/
@[local simp]
def walked (globals : List ArgSpec) (n : Node H) : (skip : Bool) → List RawText → List (String × List RawText)
  | _, [] => []
  | true, _ :: rest => walked globals n false rest
  | false, t :: rest =>
    match t.toString? with
    | none => []
    | some token =>
      if isDashed token then walked globals n (takesNext globals token.toList) rest
      else
        match n.child? token with
        | none => []
        | some child => (token, rest) :: walked globals child false rest

section Step

variable {globals : List ArgSpec} {n : Node H} {t : RawText} {rest : List RawText} {token : String}

theorem walked_option (text : t.toString? = some token) (dashed : isDashed token) :
    walked globals n false (t :: rest) = walked globals n (takesNext globals token.toList) rest := by
  simp only [walked, text]
  exact if_pos dashed

theorem walked_word {child : Node H} (text : t.toString? = some token) (word : ¬isDashed token)
    (found : n.child? token = some child) :
    walked globals n false (t :: rest) = (token, rest) :: walked globals child false rest := by
  simp only [walked, text, found]
  exact if_neg word

theorem walked_unnamed (text : t.toString? = some token) (word : ¬isDashed token) (found : n.child? token = none) :
    walked globals n false (t :: rest) = [] := by
  simp only [walked, text, found]
  exact if_neg word

end Step

theorem walkDown_eq (globals : List ArgSpec) (n : Node H) (path : CommandPath) (skip : Bool)
    (tokens : List RawText) :
    (walkDown globals n path skip tokens).1 = path ++ (walked globals n skip tokens).map (·.1) := by
  induction tokens generalizing n path skip with
  | nil => cases skip <;> simp [walkDown]
  | cons t rest ih =>
      cases skip with
      | true => simpa only [walkDown, walked] using ih n path false
      | false =>
          simp only [walkDown, walked]
          cases t.toString? with
          | none => simp
          | some token =>
              dsimp only
              split
              · exact ih n path _
              · cases n.child? token with
                | none => simp
                | some child => simp [ih, CommandPath.below]

theorem length_of_mem_walked {globals : List ArgSpec} {n : Node H} {skip : Bool} {tokens : List RawText} :
    ∀ entry ∈ walked globals n skip tokens, entry.2.length < tokens.length := by
  induction tokens generalizing n skip with
  | nil =>
      intro entry member
      cases skip <;> cases member
  | cons t rest ih =>
      intro entry member
      cases skip with
      | true => exact Nat.lt_succ_of_lt (ih entry member)
      | false =>
          simp only [walked] at member
          split at member
          · cases member
          · split at member
            · exact Nat.lt_succ_of_lt (ih entry member)
            · split at member
              · cases member
              · cases List.mem_cons.mp member with
                | inl first => simp [first]
                | inr later => exact Nat.lt_succ_of_lt (ih entry later)

/-- The walk stays where it is exactly if the first word that it meets names no command. -/
theorem Shows.walked_eq_nil_iff {globals : List ArgSpec} {n : Node H} {l : Level} (shows : n.Shows l)
    (skip : Bool) (tokens : List RawText) :
    walked globals n skip tokens = [] ↔
      ∀ w, firstWord? globals skip tokens = some w → namedChild? l w = none := by
  induction tokens generalizing skip with
  | nil => cases skip <;> simp
  | cons t rest ih =>
      cases skip with
      | true => simpa only [walked, firstWord?] using ih false
      | false =>
          simp only [walked, firstWord?]
          cases text : t.toString? with
          | none => simp [namedChild?, text]
          | some token =>
              dsimp only
              split
              · exact ih _
              · have named : namedChild? l t = (n.child? token).map (command token) := by
                  rw [namedChild?, text, Option.bind_some, shows.child?]
                cases found : n.child? token <;> simp [named, found]

/-- No command below has a name that looks like an option. -/
def Undashed (n : Node H) : Prop :=
  ∀ r name, (n.get? (r ++ [name])).isSome → ¬isDashed name

theorem Undashed.child {n child : Node H} {name : String} (undashed : n.Undashed)
    (found : n.child? name = some child) : child.Undashed := by
  intro r other there
  apply undashed (name :: r)
  rw [List.cons_append, get?_cons, found]
  exact there

theorem Undashed.entered?_eq_none {n : Node H} {l : Level} (undashed : n.Undashed) (shows : n.Shows l)
    {t : RawText} {token : String} (text : t.toString? = some token) (dashed : isDashed token) (s : Scan) :
    entered? l t s = none := by
  cases entered : entered? l t s with
  | none => rfl
  | some c =>
      obtain ⟨name, child, text', found, -⟩ := shows.entered entered
      obtain rfl : token = name := Option.some.inj (text.symm.trans text')
      refine absurd dashed (undashed [] token ?_)
      rw [List.nil_append, get?_singleton, found]
      rfl

section Pace

variable {globals : List ArgSpec} {n : Node H} {l : Level} {tokens : List RawText} {s : Scan}

/-- A walk that keeps pace enters the same commands at the same tokens. -/
theorem Shows.walked_of_paced (shows : n.Shows l) (undashed : n.Undashed) (paced : Paced globals l tokens s) :
    walked globals n false tokens = entrances l tokens s := by
  induction paced generalizing n with
  | quiet silent unnamed =>
      rw [silent]
      exact (shows.walked_eq_nil_iff false _).mpr unnamed
  | enter entered below ih =>
      obtain ⟨name, child, text, found, rfl⟩ := shows.entered entered
      have word : ¬isDashed name := by
        apply undashed []
        rw [List.nil_append, get?_singleton, found]
        rfl
      rw [walked_word text word found, entrances_enter entered,
        ih (shows_enter child name _) (undashed.child found)]
      rfl
  | option text dashed alone taken later ih =>
      have passed := undashed.entered?_eq_none shows text dashed
      rw [walked_option text dashed, alone, entrances_taken (passed _) taken]
      exact ih shows undashed
  | optionValue text dashed both taken value takenValue later ih =>
      have passed := undashed.entered?_eq_none shows text dashed
      rw [walked_option text dashed, both, entrances_taken (passed _) taken, entrances_taken value takenValue]
      exact ih shows undashed

theorem Shows.paced_of_option {t : RawText} {rest : List RawText} {token : String} (shows : n.Shows l)
    (undashed : n.Undashed) (text : t.toString? = some token) (dashed : isDashed token)
    (moves : entrances l (t :: rest) s ≠ [])
    (same : walked globals n false (t :: rest) = entrances l (t :: rest) s)
    (shorter : ∀ tokens s, tokens.length < (t :: rest).length →
      walked globals n false tokens = entrances l tokens s → Paced globals l tokens s) :
    Paced globals l (t :: rest) s := by
  have passed := undashed.entered?_eq_none shows text dashed s
  cases taken : takeToken l t rest s with
  | error stop => exact absurd (entrances_refused passed taken) moves
  | ok s' =>
      rw [entrances_taken passed taken] at same moves
      rw [walked_option text dashed] at same
      cases next : takesNext globals token.toList with
      | false =>
          rw [next] at same
          exact .option text dashed next taken (shorter rest s' (Nat.lt_succ_self _) same)
      | true =>
          rw [next] at same
          cases rest with
          | nil => exact absurd rfl moves
          | cons v rest =>
              change walked globals n false rest = _ at same
              cases value : entered? l v s' with
              | some c =>
                  rw [entrances_enter value] at same
                  -- The walk has passed over `v`, so what it has left at its next command is shorter.
                  have left : (c.name, rest) ∈ walked globals n false rest := same ▸ List.mem_cons_self
                  exact absurd (length_of_mem_walked _ left) (Nat.lt_irrefl _)
              | none =>
                  cases takenValue : takeToken l v rest s' with
                  | error stop => exact absurd (entrances_refused value takenValue) moves
                  | ok s'' =>
                      rw [entrances_taken value takenValue] at same
                      have fewer : rest.length < (t :: v :: rest).length := by
                        simp only [List.length_cons]
                        omega
                      exact .optionValue text dashed next taken value takenValue (shorter rest s'' fewer same)

theorem Shows.paced_of_word {child : Node H} {t : RawText} {rest : List RawText} {token : String}
    (shows : n.Shows l) (text : t.toString? = some token) (found : n.child? token = some child)
    (same : (token, rest) :: walked globals child false rest = entrances l (t :: rest) s)
    (below : walked globals child false rest = entrances (l.enter (child.command token)) rest .start →
      Paced globals (l.enter (child.command token)) rest .start) :
    Paced globals l (t :: rest) s := by
  cases entered : entered? l t s with
  | some c =>
      obtain ⟨name, child', text', found', rfl⟩ := shows.entered entered
      obtain rfl : token = name := Option.some.inj (text.symm.trans text')
      obtain rfl : child = child' := Option.some.inj (found.symm.trans found')
      rw [entrances_enter entered] at same
      exact .enter entered (below (List.cons.inj same).2)
  | none =>
      cases taken : takeToken l t rest s with
      | error stop =>
          rw [entrances_refused entered taken] at same
          cases same
      | ok s' =>
          rw [entrances_taken entered taken] at same
          -- The reading has passed over `t`, so what it has left at its next command is shorter.
          have left : (token, rest) ∈ entrances l rest s' := same ▸ List.mem_cons_self
          exact absurd (length_of_mem_entrances _ left) (Nat.lt_irrefl _)

/-- A walk that enters the same commands at the same tokens keeps pace. -/
theorem Shows.paced_of_walked (shows : n.Shows l) (undashed : n.Undashed)
    (same : walked globals n false tokens = entrances l tokens s) : Paced globals l tokens s := by
  -- Induction on the length: an option and its value are passed over together.
  induction size : tokens.length using Nat.strongRecOn generalizing n l tokens s with
  | ind size ih =>
      subst size
      by_cases silent : entrances l tokens s = []
      · exact .quiet silent ((shows.walked_eq_nil_iff false tokens).mp (same.trans silent))
      · have moves : walked globals n false tokens ≠ [] := same ▸ silent
        cases tokens with
        | nil => exact absurd rfl silent
        | cons t rest =>
            cases text : t.toString? with
            | none => simp [text] at moves
            | some token =>
                by_cases dashed : isDashed token
                · apply shows.paced_of_option undashed text dashed silent same
                  intro tokens s shorter same
                  exact ih _ shorter shows undashed same rfl
                · cases found : n.child? token with
                  | none => exact absurd (walked_unnamed text dashed found) moves
                  | some child =>
                      rw [walked_word text dashed found] at same
                      apply shows.paced_of_word text found same
                      intro below
                      exact ih _ (Nat.lt_succ_self _) (shows_enter child token l) (undashed.child found) below rfl

end Pace

end Node

namespace Tree

/-- The commands that a command line enters, each with the tokens that are left for it. -/
def entered (t : Tree H) (argv : List RawText) : List (String × List RawText) :=
  entrances (t.interface.level (calledAs? argv)) argv.tail .start

/-- The walk that looks for the nearest command keeps pace with the reading of the command line. -/
def Paces (t : Tree H) (argv : List RawText) : Prop :=
  Paced t.globals (t.interface.level (calledAs? argv)) argv.tail .start

theorem Grown.undashed {t : Tree H} {xs : List (Offer H)} (grown : t.Grown xs) : t.root.Undashed := by
  intro r name there
  cases (grown.holds.commands (r ++ [name])).mp there with
  | inl none => simp at none
  | inr leads =>
      obtain ⟨x, member, above⟩ := leads
      exact ((grown.suits x member).1.2 name (above.subset (by simp))).2.1

theorem Grown.paces_iff {t : Tree H} {xs : List (Offer H)} (grown : t.Grown xs) (argv : List RawText) :
    t.Paces argv ↔ t.root.walked t.globals false argv.tail = t.entered argv := by
  have shows := Node.shows_level t grown.unclaimed (calledAs? argv)
  constructor
  · intro paces
    exact shows.walked_of_paced grown.undashed paces
  · intro same
    exact shows.paced_of_walked grown.undashed same

/-- A refusal points to the innermost command that was entered, if the walk keeps pace with the reading. It
keeps pace exactly if it goes down at the same tokens. What was entered shows in the levels that are
read, and in the level that a refusal names. -/
theorem nearest_of_paces {t : Tree H} {xs : List (Offer H)} (grown : t.Grown xs) {argv : List RawText}
    {u : UsageError} (refused : (t.parse argv).1 = .error u) :
    (t.Paces argv → u.nearest = (t.entered argv).map (·.1) ∧
      ∃ n, t.root.get? ((t.entered argv).map (·.1)) = some n ∧ u.suggestions = n.children.map (·.1)) ∧
    (t.Paces argv ↔ t.root.walked t.globals false argv.tail = t.entered argv) ∧
    (∀ chain, t.interface.parse (calledAs? argv) argv.tail = .selected chain →
      chain.tail.map (·.1.name?) = (t.entered argv).map (some ·.1)) ∧
    ∀ f, t.interface.parse (calledAs? argv) argv.tail = .failed f →
      f.level.path <+: (t.entered argv).map (·.1) := by
  refine ⟨?_, grown.paces_iff argv, ?_, ?_⟩
  · intro paces
    have walked := (grown.paces_iff argv).mp paces
    obtain ⟨message, rfl⟩ := eq_usageError_of_route refused
    obtain ⟨names, path, reached, -⟩ := walkDown_reached t.globals t.root [] false argv.tail
    have nearest : (walkDown t.globals t.root [] false argv.tail).1 = (t.entered argv).map (·.1) := by
      rw [Node.walkDown_eq, List.nil_append, walked]
    rw [List.nil_append] at path
    rw [← path, nearest] at reached
    exact ⟨nearest, _, reached, rfl⟩
  · intro chain selected
    obtain ⟨read, done, rfl⟩ := parse_eq_selected_iff.mp selected
    rw [shareValues, ← List.map_tail, List.map_map]
    exact names_of_readLevel done
  · intro f failed
    have done : readLevel (t.interface.level (calledAs? argv)) argv.tail .start = .error (.failed f) := by
      unfold Interface.parse at failed
      split at failed <;> simp_all
    obtain ⟨above, path, inside⟩ := level_of_refused done
    rw [path]
    exact inside

/-- A tree with an option for all commands, a group with an option of its own, and a command that takes
a value and has a command below it. -/
def relayOffers : List (Offer Unit) :=
  [("relay", { path := ["chains"], about := "", args := [{ id := "only", long := some "only" }] }),
    ("relay", { path := ["chains", "list"], about := "", handler := some () }),
    ("relay", { path := ["node"], about := "", args := [{ id := "id" }], handler := some () }),
    ("relay", { path := ["node", "peers"], about := "", handler := some () })]

def relayGlobals : List ArgSpec :=
  [{ id := "dir", long := some "dir", short := some 'd' }]

def relayTree : Tree Unit :=
  relayOffers.foldl (fun t x => { t with root := t.root.insert x.claim x.path })
    (empty "relayer" none none relayGlobals)

theorem grown_relayTree : relayTree.Grown relayOffers :=
  Grown.insertEach (.empty "relayer" none none relayGlobals) rfl

/-- The command line is refused, and the nearest command is not the innermost one that it enters. -/
def Misses (t : Tree H) (argv : List String) (nearest entered : CommandPath) : Prop :=
  nearest ≠ entered ∧ (t.entered (argv.map RawText.ofString)).map (·.1) = entered ∧
    ∃ u, (t.parse (argv.map RawText.ofString)).1 = .error u ∧ u.nearest = nearest

/-- Why the reading of the command line fails. -/
def cause? (t : Tree H) (argv : List RawText) : Option Cause :=
  match t.interface.parse (calledAs? argv) argv.tail with
  | .failed f => some f.cause
  | _ => none

theorem refused_of_cause {t : Tree H} {argv : List RawText} {cause : Cause} (failed : t.cause? argv = some cause) :
    ∃ f : Failure, f.cause = cause ∧ (t.parse argv).1 = .error (t.usageError argv.tail f.message) := by
  unfold cause? at failed
  split at failed
  · next f outcome =>
      refine ⟨f, Option.some.inj failed, ?_⟩
      have sealed : t.sealed.interface.parse (calledAs? argv) argv.tail = .failed f := outcome
      simp only [parse, route, sealed]
      rfl
  · cases failed

theorem nearest_of_cause {t : Tree H} {argv : List RawText} {cause : Cause} (failed : t.cause? argv = some cause) :
    ∃ u, (t.parse argv).1 = .error u ∧ u.nearest = (t.root.walked t.globals false argv.tail).map (·.1) := by
  obtain ⟨f, -, refused⟩ := refused_of_cause failed
  exact ⟨_, refused, (Node.walkDown_eq t.globals t.root [] false argv.tail).trans (List.nil_append _)⟩

theorem misses_of_cause {t : Tree H} {argv : List String} (nearest entered : CommandPath) (cause : Cause)
    (other : nearest ≠ entered) (failed : t.cause? (argv.map RawText.ofString) = some cause)
    (reading : (t.entered (argv.map RawText.ofString)).map (·.1) = entered)
    (walk : (t.root.walked t.globals false (argv.map RawText.ofString).tail).map (·.1) = nearest) :
    t.Misses argv nearest entered := by
  obtain ⟨u, refused, reached⟩ := nearest_of_cause failed
  exact ⟨other, reading, u, refused, reached.trans walk⟩

/-- The walk loses pace at a value that is attached to a short name, at the value of an option that is not
for all commands, after the end of options, and at a value of a positional argument. -/
theorem relay_misses : relayTree.Grown relayOffers ∧
    relayTree.Misses ["relayer", "-d/tmp", "chains"] [] ["chains"] ∧
    relayTree.Misses ["relayer", "chains", "--only", "list"] ["chains", "list"] ["chains"] ∧
    relayTree.Misses ["relayer", "chains", "--", "list"] ["chains", "list"] ["chains"] ∧
    relayTree.Misses ["relayer", "node", "5", "peers", "all"] ["node"] ["node", "peers"] := by
  refine ⟨grown_relayTree, ?_, ?_, ?_, ?_⟩
  · exact misses_of_cause _ _ .missingCommand (by decide) (by cbv) (by cbv) (by cbv)
  · exact misses_of_cause _ _ .missingCommand (by decide) (by cbv) (by cbv) (by cbv)
  · exact misses_of_cause _ _ (.commandAfterDashes "list") (by decide) (by cbv) (by cbv) (by cbv)
  · exact misses_of_cause _ _ (.unexpected "all") (by decide) (by cbv) (by cbv) (by cbv)

/-- A value in a token of its own after an option for all commands leaves the walk in step. -/
theorem nearest_of_paces_relay :
    let argv := ["relayer", "-d", "/tmp", "chains"].map RawText.ofString
    ∃ u, (relayTree.parse argv).1 = .error u ∧ u.nearest = ["chains"] ∧ u.suggestions = ["list"] := by
  intro argv
  have paces : relayTree.Paces argv := by
    apply (grown_relayTree.paces_iff argv).mpr
    cbv
  have failed : relayTree.cause? argv = some .missingCommand := by cbv
  have entered : (relayTree.entered argv).map (·.1) = ["chains"] := by cbv
  obtain ⟨u, refused, -⟩ := nearest_of_cause failed
  obtain ⟨nearest, n, at_, below⟩ := (nearest_of_paces grown_relayTree refused).1 paces
  rw [entered] at nearest at_
  obtain rfl : _ = n := Option.some.inj at_
  exact ⟨u, refused, nearest, below⟩

end Tree

end ChainRelay
