import ChainRelay.Args.Parse

/-! # Arguments that agree

Which arguments were given is all that counts for what arguments say of each other. Given arguments agree if none
clashes with another and all that is needed is there, and a level is completed only where they do.
-/

namespace ChainRelay.Args

variable {args : List ArgSpec} {given given' : List String} {id : String}

theorem argOf?_of_mem {a : ArgSpec} (member : a ∈ args) : ∃ b ∈ args, b.id = a.id ∧ argOf? args a.id = some b := by
  have found : (argOf? args a.id).isSome := List.find?_isSome.mpr ⟨a, member, beq_self_eq_true _⟩
  obtain ⟨b, found⟩ := Option.isSome_iff_exists.mp found
  exact ⟨b, List.mem_of_find?_eq_some found, by simpa using List.find?_some found, found⟩

theorem argOf?_some {a : ArgSpec} (found : argOf? args id = some a) : a ∈ args ∧ a.id = id :=
  ⟨List.mem_of_find?_eq_some found, by simpa using List.find?_some found⟩

theorem mem_requiresOf {other : String} (asked : other ∈ requiresOf args id) :
    ∃ a ∈ args, a.id = id ∧ other ∈ a.requires := by
  unfold requiresOf at asked
  cases found : argOf? args id with
  | none => simp [found] at asked
  | some a => exact ⟨a, (argOf?_some found).1, (argOf?_some found).2, by simpa [found] using asked⟩

theorem mem_conflictsOf {other : String} (ruledOut : other ∈ conflictsOf args id) :
    ∃ a ∈ args, a.id = id ∧ other ∈ a.conflicts := by
  unfold conflictsOf at ruledOut
  cases found : argOf? args id with
  | none => simp [found] at ruledOut
  | some a => exact ⟨a, (argOf?_some found).1, (argOf?_some found).2, by simpa [found] using ruledOut⟩

theorem exists_of_isExclusive (alone : isExclusive args id = true) : ∃ a ∈ args, a.id = id ∧ a.exclusive = true := by
  unfold isExclusive at alone
  cases found : argOf? args id with
  | none => simp [found] at alone
  | some a => exact ⟨a, (argOf?_some found).1, (argOf?_some found).2, by simpa [found] using alone⟩

/-! ## Demands -/

/-- An id leads to another one if its argument asks for that one. -/
abbrev Asks (args : List ArgSpec) (x y : String) : Prop :=
  y ∈ requiresOf args x

theorem demandsFrom_nil (steps : Nat) (seen : List String) : demandsFrom args steps [] seen = [] := by
  cases steps <;> rfl

/-- What is demanded is reached from one of the waiting ids. -/
theorem reached_of_mem_demandsFrom {steps : Nat} {waiting seen : List String} {other : String}
    (demanded : other ∈ demandsFrom args steps waiting seen) :
    ∃ id ∈ waiting, Relation.TransGen (Asks args) id other := by
  induction steps generalizing waiting seen with
  | zero => cases demanded
  | succ steps ih =>
      cases waiting with
      | nil => cases demanded
      | cons first rest =>
          rw [demandsFrom] at demanded
          split at demanded
          · obtain ⟨id, member, reached⟩ := ih demanded
            exact ⟨id, List.mem_cons_of_mem _ member, reached⟩
          · rcases List.mem_append.mp demanded with asked | later
            · exact ⟨first, List.mem_cons_self, .single asked⟩
            · obtain ⟨id, member, reached⟩ := ih later
              rcases List.mem_append.mp member with further | waits
              · have asked := (List.mem_filter.mp (List.mem_reverse.mp further)).1
                exact ⟨first, List.mem_cons_self, .trans (.single asked) reached⟩
              · exact ⟨id, List.mem_cons_of_mem _ waits, reached⟩

/-- How many ids are asked for by the arguments that have not been looked at. -/
def unseenRequires (seen : List String) : List ArgSpec → Nat
  | [] => 0
  | a :: rest => (if a.id ∈ seen then 0 else a.requires.length) + unseenRequires seen rest

theorem unseenRequires_nil (args : List ArgSpec) : unseenRequires [] args = (args.flatMap (·.requires)).length := by
  induction args with
  | nil => rfl
  | cons a rest ih => simp [unseenRequires, ih]

theorem unseenRequires_cons_le (seen : List String) :
    unseenRequires (id :: seen) args ≤ unseenRequires seen args := by
  induction args with
  | nil => exact Nat.le_refl _
  | cons a rest ih => grind [unseenRequires]

/-- Looking at an id uses up what its argument asks for. -/
theorem unseenRequires_cons {seen : List String} (new : id ∉ seen) :
    unseenRequires (id :: seen) args + (requiresOf args id).length ≤ unseenRequires seen args := by
  induction args with
  | nil => exact Nat.le_refl _
  | cons a rest ih =>
      have fewer : unseenRequires (id :: seen) rest ≤ unseenRequires seen rest := unseenRequires_cons_le seen
      by_cases here : a.id = id
      · have asked : requiresOf (a :: rest) id = a.requires := by simp [requiresOf, argOf?, here]
        rw [asked]
        simp only [unseenRequires, here, List.mem_cons, true_or, if_true, new, if_false]
        omega
      · have asked : requiresOf (a :: rest) id = requiresOf rest id := by simp [requiresOf, argOf?, here]
        rw [asked]
        simp only [unseenRequires, here, List.mem_cons, false_or]
        omega

/-- With enough steps all that the waiting ids ask for is demanded, and all that this asks for in turn, unless it has
been looked at before. -/
theorem closed_demandsFrom {steps : Nat} {waiting seen : List String}
    (enough : waiting.length + unseenRequires seen args ≤ steps) :
    (∀ x ∈ waiting, x ∉ seen → ∀ y, Asks args x y → y ∈ demandsFrom args steps waiting seen) ∧
      ∀ x ∈ demandsFrom args steps waiting seen, x ∉ seen → ∀ y, Asks args x y →
        y ∈ demandsFrom args steps waiting seen := by
  induction steps generalizing waiting seen with
  | zero =>
      obtain rfl : waiting = [] := List.length_eq_zero_iff.mp (by omega)
      exact ⟨nofun, nofun⟩
  | succ steps ih =>
      cases waiting with
      | nil => exact ⟨nofun, nofun⟩
      | cons first rest =>
          rw [List.length_cons] at enough
          rw [demandsFrom]
          split
          · next old =>
              have old : first ∈ seen := by simpa using old
              obtain ⟨waits, closed⟩ := @ih rest seen (by omega)
              refine ⟨?_, closed⟩
              intro x member new
              exact waits x ((List.mem_cons.mp member).resolve_left fun here => new (here ▸ old)) new
          · next new =>
              have new : first ∉ seen := by simpa using new
              have used : _ ≤ unseenRequires seen args := unseenRequires_cons new
              have few := List.length_filter_le (fun other => !(requiresOf args other).isEmpty) (requiresOf args first)
              obtain ⟨waits, closed⟩ := @ih
                (((requiresOf args first).filter fun other => !(requiresOf args other).isEmpty).reverse ++ rest)
                (first :: seen) (by rw [List.length_append, List.length_reverse]; omega)
              dsimp only
              generalize demandsFrom args steps (_ ++ rest) (first :: seen) = below at waits closed ⊢
              -- An id other than the first one is followed up later, if it asks for anything.
              have follow (x y : String) (asked : Asks args x y) (later : x ≠ first → y ∈ below) :
                  y ∈ requiresOf args first ++ below := by
                by_cases here : x = first
                · exact List.mem_append_left _ (here ▸ asked)
                · exact List.mem_append_right _ (later here)
              constructor
              · intro x member unseen y asked
                refine follow x y asked fun other => ?_
                have inside := (List.mem_cons.mp member).resolve_left other
                exact waits x (List.mem_append_right _ inside) (by simp [other, unseen]) y asked
              · intro x member unseen y asked
                refine follow x y asked fun other => ?_
                rcases List.mem_append.mp member with here | later
                · refine waits x (List.mem_append_left _ ?_) (by simp [other, unseen]) y asked
                  rw [List.mem_reverse, List.mem_filter]
                  exact ⟨here, by simpa using List.ne_nil_of_mem asked⟩
                · exact closed x later (by simp [other, unseen]) y asked

/-- An argument demands what it asks for, what the arguments that it asks for ask for, and so on. -/
theorem mem_demands_iff {other : String} : other ∈ demands args id ↔ Relation.TransGen (Asks args) id other := by
  constructor
  · intro demanded
    obtain ⟨first, member, reached⟩ := reached_of_mem_demandsFrom demanded
    exact List.mem_singleton.mp member ▸ reached
  · intro reached
    have enough : [id].length + unseenRequires [] args ≤ (args.flatMap (·.requires)).length + 1 := by
      rw [unseenRequires_nil, List.length_singleton]
      omega
    obtain ⟨waits, closed⟩ := closed_demandsFrom enough
    induction reached with
    | single asked => exact waits id List.mem_cons_self List.not_mem_nil _ asked
    | tail _ asked ih => exact closed _ ih List.not_mem_nil _ asked

/-- Nothing is demanded that no argument asks for. -/
theorem exists_of_mem_demands {other : String} (demanded : other ∈ demands args id) :
    ∃ a ∈ args, other ∈ a.requires := by
  have asked : ∃ x, Asks args x other := by
    cases mem_demands_iff.mp demanded with
    | single asked => exact ⟨_, asked⟩
    | tail _ asked => exact ⟨_, asked⟩
  obtain ⟨x, asked⟩ := asked
  obtain ⟨a, member, -, asks⟩ := mem_requiresOf asked
  exact ⟨a, member, asks⟩

/-- An argument that asks for nothing demands nothing. -/
theorem demands_eq_nil (none : requiresOf args id = []) : demands args id = [] := by
  rw [demands, demandsFrom]
  simp [none, demandsFrom_nil]

theorem mem_neededIds {given : List String} :
    id ∈ neededIds args given ↔ (∃ a ∈ args, a.required = true ∧ a.id = id) ∨ ∃ g ∈ given, id ∈ demands args g := by
  simp [neededIds, and_assoc]

/-! ## Given arguments -/

theorem mem_clashing {other : String} : other ∈ clashing args given id ↔
    other ∈ given ∧ other ≠ id ∧ (other ∈ conflictsOf args id ∨ id ∈ conflictsOf args other) := by
  simp [clashing]

theorem isExcused_iff : isExcused args given id = true ↔ (∃ g ∈ given, isExclusive args g = true) ∨
    ∃ other ∈ given, other ≠ id ∧ (other ∈ conflictsOf args id ∨ id ∈ conflictsOf args other) := by
  rw [isExcused, Bool.or_eq_true, List.any_eq_true, Bool.not_eq_true', List.isEmpty_eq_false_iff_exists_mem]
  simp only [mem_clashing]

/-- The given arguments may stand side by side, and nothing that is needed beside them is missing. -/
structure Agree (args : List ArgSpec) (given : List String) : Prop where
  alone : ∀ id ∈ given, isExclusive args id = true → ∀ other ∈ given, other = id
  apart : ∀ id ∈ given, ∀ other ∈ given, other ≠ id → other ∉ conflictsOf args id
  needed : ∀ a ∈ args, a.id ∈ neededIds args given → a.id ∈ given ∨ isExcused args given a.id = true

theorem isCrowded_iff : isCrowded args given id = true ↔
    isExclusive args id = true ∧ ∃ other ∈ given, other ≠ id := by
  simp [isCrowded]

theorem crowded_eq_none_iff : (given.find? (isCrowded args given)).bind (argOf? args) = none ↔
    ∀ id ∈ given, isExclusive args id = true → ∀ other ∈ given, other = id := by
  have nowhere : given.find? (isCrowded args given) = none ↔
      ∀ id ∈ given, isExclusive args id = true → ∀ other ∈ given, other = id := by
    simp only [List.find?_eq_none, isCrowded_iff, not_and, not_exists, Decidable.not_not]
  rw [← nowhere]
  cases found : given.find? (isCrowded args given) with
  | none => simp
  | some id =>
      obtain ⟨a, argument, rfl, -⟩ := exists_of_isExclusive (isCrowded_iff.mp (List.find?_some found)).1
      obtain ⟨b, -, -, there⟩ := argOf?_of_mem argument
      simp [there]

theorem findSome?_clashAt?_eq_none_iff : given.findSome? (clashAt? args given) = none ↔
    ∀ id ∈ given, ∀ other ∈ given, other ≠ id → other ∉ conflictsOf args id := by
  rw [List.findSome?_eq_none_iff]
  constructor
  · intro each id member other inside different ruledOut
    obtain ⟨a, argument, same, -⟩ := mem_conflictsOf ruledOut
    obtain ⟨b, -, -, found⟩ := argOf?_of_mem argument
    have clash : other ∈ clashing args given id := mem_clashing.mpr ⟨inside, different, .inl ruledOut⟩
    have here := each id member
    rw [clashAt?, ← same, found] at here
    rw [← same] at clash
    cases others : clashing args given a.id with
    | nil => simp [others] at clash
    | cons first rest => simp [others] at here
  · intro each id member
    have nothing : clashing args given id = [] := by
      rw [List.eq_nil_iff_forall_not_mem]
      intro other clash
      obtain ⟨inside, different, ruledOut | ruledOut⟩ := mem_clashing.mp clash
      · exact each id member other inside different ruledOut
      · exact each other inside id member different.symm ruledOut
    unfold clashAt?
    rw [nothing]
    split <;> simp_all

theorem clash?_eq_none_iff : clash? args given = none ↔
    (∀ id ∈ given, isExclusive args id = true → ∀ other ∈ given, other = id) ∧
      ∀ id ∈ given, ∀ other ∈ given, other ≠ id → other ∉ conflictsOf args id := by
  rw [← crowded_eq_none_iff, ← findSome?_clashAt?_eq_none_iff, clash?]
  cases (given.find? (isCrowded args given)).bind (argOf? args) with
  | none => exact (and_iff_right rfl).symm
  | some a => exact iff_of_false nofun fun both => nomatch both.1

/-- Nothing is missing exactly if all that is needed has been given or may be left out. -/
theorem missingIds_eq_nil_iff : missingIds args given = [] ↔
    ∀ a ∈ args, a.id ∈ neededIds args given → a.id ∈ given ∨ isExcused args given a.id = true := by
  have none : (neededIds args given).eraseDups.filter (fun id =>
      (argOf? args id).isSome && !given.contains id && !isExcused args given id) = [] ↔
      ∀ a ∈ args, a.id ∈ neededIds args given → a.id ∈ given ∨ isExcused args given a.id = true := by
    rw [List.filter_eq_nil_iff]
    simp only [List.mem_eraseDups]
    constructor
    · intro each a member needed
      obtain ⟨b, -, -, found⟩ := argOf?_of_mem member
      have here := each a.id needed
      rw [found] at here
      by_cases there : a.id ∈ given
      · exact .inl there
      · exact .inr (by simpa [there] using here)
    · intro each id needed missing
      simp only [Bool.and_eq_true, Bool.not_eq_true', List.contains_eq_mem, decide_eq_false_iff_not] at missing
      obtain ⟨⟨known, absent⟩, unexcused⟩ := missing
      obtain ⟨a, found⟩ := Option.isSome_iff_exists.mp known
      obtain ⟨member, rfl⟩ := argOf?_some found
      cases each a member needed with
      | inl there => exact absent there
      | inr excused => simp [excused] at unexcused
  have all (places : List ArgSpec) : places.dropWhile (fun _ => true) = [] := by
    induction places with
    | nil => rfl
    | cons a rest ih => exact ih
  rw [← none]
  constructor
  · intro nothing
    exact (List.append_eq_nil_iff.mp nothing).1
  · intro nothing
    simp only [missingIds, nothing, List.map_nil, List.contains_nil, Bool.not_false, all, List.reverse_nil,
      List.filter_nil, List.append_nil]

/-- What was given passes, or the level refuses it. -/
theorem checkGiven_cases (l : Level) (given : List String) :
    checkGiven l given = .ok () ∨ ∃ cause used, checkGiven l given = .error (refuse l cause used) := by
  unfold checkGiven
  split
  · exact .inr ⟨_, _, rfl⟩
  · dsimp only
    split
    · exact .inl rfl
    · exact .inr ⟨_, _, rfl⟩

theorem checkGiven_eq_ok_iff {l : Level} : checkGiven l given = .ok () ↔ Agree l.args given := by
  unfold checkGiven
  cases clash : clash? l.args given with
  | some found =>
      refine iff_of_false nofun fun agree => ?_
      rw [clash?_eq_none_iff.mpr ⟨agree.alone, agree.apart⟩] at clash
      cases clash
  | none =>
      obtain ⟨alone, apart⟩ := clash?_eq_none_iff.mp clash
      dsimp only
      split
      · next nothing =>
          exact iff_of_true rfl ⟨alone, apart, missingIds_eq_nil_iff.mp (List.isEmpty_iff.mp nothing)⟩
      · next something =>
          refine iff_of_false nofun fun agree => something ?_
          rw [missingIds_eq_nil_iff.mpr agree.needed]
          rfl

/-! ## Arguments that say nothing of others -/

/-- The argument neither wants to be alone nor rules out or asks for others. -/
structure ArgSpec.Plain (a : ArgSpec) : Prop where
  alone : a.exclusive = false
  conflicts : a.conflicts = []
  requires : a.requires = []

/-- Plain arguments agree if nothing that is required is missing. -/
theorem agree_of_plain (plain : ∀ a ∈ args, a.id ∈ given → a.Plain)
    (required : ∀ a ∈ args, a.required = true → a.id ∈ given) : Agree args given where
  alone := by
    intro id member alone
    obtain ⟨a, argument, rfl, wants⟩ := exists_of_isExclusive alone
    simp [(plain a argument member).alone] at wants
  apart := by
    intro id member other _ _ ruledOut
    obtain ⟨a, argument, rfl, named⟩ := mem_conflictsOf ruledOut
    simp [(plain a argument member).conflicts] at named
  needed := by
    intro a argument needed
    rcases mem_neededIds.mp needed with ⟨b, member, must, same⟩ | ⟨g, inside, demanded⟩
    · exact .inl (same ▸ required b member must)
    · have nothing : requiresOf args g = [] := by
        rw [List.eq_nil_iff_forall_not_mem]
        intro other asked
        obtain ⟨b, member, rfl, named⟩ := mem_requiresOf asked
        simp [(plain b member inside).requires] at named
      rw [demands_eq_nil nothing] at demanded
      cases demanded

/-- What is required has been given where all arguments are plain. -/
theorem Agree.required (agree : Agree args given) (plain : ∀ a ∈ args, a.Plain) :
    ∀ a ∈ args, a.required = true → a.id ∈ given := by
  intro a member must
  rcases agree.needed a member (mem_neededIds.mpr (.inl ⟨a, member, must, rfl⟩)) with there | excused
  · exact there
  · rcases isExcused_iff.mp excused with ⟨g, -, alone⟩ | ⟨other, -, -, ruledOut | ruledOut⟩
    · obtain ⟨b, argument, -, alone⟩ := exists_of_isExclusive alone
      simp [(plain b argument).alone] at alone
    all_goals
      obtain ⟨b, argument, -, ruledOut⟩ := mem_conflictsOf ruledOut
      simp [(plain b argument).conflicts] at ruledOut

/-! ## Arguments that are of no account to the others -/

/-- The argument says nothing of that of an id, and does not want to be alone. -/
structure ArgSpec.Ignores (a : ArgSpec) (id : String) : Prop where
  alone : a.exclusive = false
  conflicts : id ∉ a.conflicts
  requires : id ∉ a.requires

theorem ArgSpec.Plain.ignores {a : ArgSpec} (plain : a.Plain) (id : String) : a.Ignores id where
  alone := plain.alone
  conflicts := by simp [plain.conflicts]
  requires := by simp [plain.requires]

section Ignored

variable (ignored : ∀ a ∈ args, a.Ignores id) (plain : ∀ a ∈ args, a.id = id → a.Plain)
include ignored plain

omit plain in
theorem isExclusive_ignored (other : String) : isExclusive args other = false := by
  rw [← Bool.not_eq_true]
  intro alone
  obtain ⟨a, member, -, alone⟩ := exists_of_isExclusive alone
  simp [(ignored a member).alone] at alone

theorem not_conflicts_ignored (other : String) : other ∉ conflictsOf args id ∧ id ∉ conflictsOf args other := by
  constructor <;> intro ruledOut <;> obtain ⟨a, member, same, ruledOut⟩ := mem_conflictsOf ruledOut
  · simp [(plain a member same).conflicts] at ruledOut
  · exact (ignored a member).conflicts ruledOut

/-- Whether an argument of no account was given makes no difference to the others. -/
theorem Agree.across (agree : Agree args given) (same : ∀ other, other ≠ id → (other ∈ given ↔ other ∈ given'))
    (covered : ∀ a ∈ args, a.id = id → a.required = true → id ∈ given') : Agree args given' where
  alone := by
    intro other _ alone
    simp [isExclusive_ignored ignored other] at alone
  apart := by
    intro first member second inside different ruledOut
    have here := not_conflicts_ignored ignored plain
    have firstOther : first ≠ id := fun same => (here second).1 (same ▸ ruledOut)
    have secondOther : second ≠ id := fun same => (here first).2 (same ▸ ruledOut)
    exact agree.apart first ((same first firstOther).mpr member) second ((same second secondOther).mpr inside)
      different ruledOut
  needed := by
    intro a member needed
    have nothing : requiresOf args id = [] := by
      rw [List.eq_nil_iff_forall_not_mem]
      intro other asked
      obtain ⟨b, argument, named, asked⟩ := mem_requiresOf asked
      simp [(plain b argument named).requires] at asked
    by_cases here : a.id = id
    · left
      rcases mem_neededIds.mp needed with ⟨b, argument, must, named⟩ | ⟨g, -, demanded⟩
      · exact here ▸ covered b argument (named.trans here) must
      · obtain ⟨b, argument, asked⟩ := exists_of_mem_demands demanded
        exact absurd (here ▸ asked) (ignored b argument).requires
    · have before : a.id ∈ neededIds args given := by
        rw [mem_neededIds] at needed ⊢
        refine needed.imp_right ?_
        rintro ⟨g, inside, demanded⟩
        refine ⟨g, (same g ?_).mpr inside, demanded⟩
        rintro rfl
        rw [demands_eq_nil nothing] at demanded
        cases demanded
      refine (agree.needed a member before).imp (same a.id here).mp fun excused => ?_
      rw [isExcused_iff] at excused ⊢
      rcases excused with ⟨g, -, alone⟩ | ⟨other, inside, different, ruledOut⟩
      · simp [isExclusive_ignored ignored g] at alone
      · refine .inr ⟨other, (same other ?_).mp inside, different, ruledOut⟩
        rintro rfl
        have free := not_conflicts_ignored ignored plain a.id
        exact ruledOut.elim free.2 free.1

/-- An argument of no account is never excused: if it is required, it has been given. -/
theorem Agree.given_of_ignored (agree : Agree args given) {g : ArgSpec} (member : g ∈ args) (named : g.id = id)
    (must : g.required = true) : id ∈ given := by
  rcases agree.needed g member (mem_neededIds.mpr (.inl ⟨g, member, must, rfl⟩)) with there | excused
  · exact named ▸ there
  · have free := not_conflicts_ignored ignored plain
    rcases isExcused_iff.mp excused with ⟨g, -, alone⟩ | ⟨other, -, -, ruledOut⟩
    · simp [isExclusive_ignored ignored g] at alone
    · rw [named] at ruledOut
      exact (ruledOut.elim (free other).1 (free other).2).elim

end Ignored

/-! ## Arguments that are left out -/

section Widen

variable {new : List ArgSpec} {added : List String}

theorem argOf?_append_right (absent : ∀ a ∈ new, a.id ≠ id) : argOf? (new ++ args) id = argOf? args id := by
  have none : new.find? (·.id == id) = none := by simpa [List.find?_eq_none] using absent
  rw [argOf?, argOf?, List.find?_append, none, Option.none_or]

theorem requiresOf_append_right (absent : ∀ a ∈ new, a.id ≠ id) : requiresOf (new ++ args) id = requiresOf args id := by
  rw [requiresOf, requiresOf, argOf?_append_right absent]

theorem conflictsOf_append_right (absent : ∀ a ∈ new, a.id ≠ id) :
    conflictsOf (new ++ args) id = conflictsOf args id := by
  rw [conflictsOf, conflictsOf, argOf?_append_right absent]

theorem isExclusive_append_right (absent : ∀ a ∈ new, a.id ≠ id) :
    isExclusive (new ++ args) id = isExclusive args id := by
  rw [isExclusive, isExclusive, argOf?_append_right absent]

/-- What the old arguments demand they demand beside new ones that none of them asks for. -/
theorem demands_append_right (unasked : ∀ a ∈ new, ∀ b ∈ args, a.id ∉ b.requires) {other : String}
    (absent : ∀ a ∈ new, a.id ≠ id) (demanded : other ∈ demands (new ++ args) id) :
    other ∈ demands args id ∧ ∀ a ∈ new, a.id ≠ other := by
  have step {x y : String} (absent : ∀ a ∈ new, a.id ≠ x) (asked : Asks (new ++ args) x y) :
      Asks args x y ∧ ∀ a ∈ new, a.id ≠ y := by
    rw [Asks, requiresOf_append_right absent] at asked
    obtain ⟨b, member, -, names⟩ := mem_requiresOf asked
    exact ⟨asked, fun a inside same => unasked a inside b member (same ▸ names)⟩
  rw [mem_demands_iff] at demanded ⊢
  induction demanded with
  | single asked => exact ⟨.single (step absent asked).1, (step absent asked).2⟩
  | tail _ asked ih => exact ⟨.tail ih.1 (step ih.2 asked).1, (step ih.2 asked).2⟩

variable (args) in
/-- A new argument that is plain says nothing of the others. -/
theorem silent_append_left (plain : ∀ a ∈ new, a.id = id → a.Plain) (inside : ∃ a ∈ new, a.id = id) :
    isExclusive (new ++ args) id = false ∧ conflictsOf (new ++ args) id = [] ∧ requiresOf (new ++ args) id = [] := by
  obtain ⟨a, there, rfl⟩ := inside
  obtain ⟨b, member, named, here⟩ := argOf?_of_mem there
  have found : argOf? (new ++ args) a.id = some b := by
    rw [argOf?, List.find?_append, ← argOf?, here, Option.some_or]
  have quiet := plain b member named
  simp [isExclusive, conflictsOf, requiresOf, found, quiet.alone, quiet.conflicts, quiet.requires]

/-- An argument that may be missing may be so beside new ones. -/
theorem isExcused_append_right (apart : ∀ other ∈ given, ∀ a ∈ new, a.id ≠ other) (more : given ⊆ given')
    (absent : ∀ a ∈ new, a.id ≠ id) (excused : isExcused args given id = true) :
    isExcused (new ++ args) given' id = true := by
  rw [isExcused_iff] at excused ⊢
  rcases excused with ⟨g, member, alone⟩ | ⟨other, member, different, ruledOut⟩
  · exact .inl ⟨g, more member, by rwa [isExclusive_append_right (apart g member)]⟩
  · refine .inr ⟨other, more member, different, ?_⟩
    rwa [conflictsOf_append_right absent, conflictsOf_append_right (apart other member)]

variable (apart : ∀ id ∈ given, ∀ a ∈ new, a.id ≠ id) (both : ∀ id, id ∈ given' ↔ id ∈ given ∨ id ∈ added)
  (plain : ∀ a ∈ new, a.id ∈ added → a.Plain) (inside : ∀ id ∈ added, ∃ a ∈ new, a.id = id)
  (unasked : ∀ a ∈ new, ∀ b ∈ args, a.id ∉ b.requires)
  (required : ∀ a ∈ new, a.required = true → a.id ∈ added)
  (other : ∀ b ∈ args, b.required = true → ∀ a ∈ new, a.id ≠ b.id)
include apart both plain inside unasked required other

/-- What is needed is one of the new arguments that have been added, or was needed before. -/
theorem needed_before (needed : id ∈ neededIds (new ++ args) given') :
    id ∈ added ∨ (∀ b ∈ new, b.id ≠ id) ∧ id ∈ neededIds args given := by
  rcases mem_neededIds.mp needed with ⟨b, argument, must, rfl⟩ | ⟨g, there, demanded⟩
  · rcases List.mem_append.mp argument with fresh | old
    · exact .inl (required b fresh must)
    · exact .inr ⟨other b old must, mem_neededIds.mpr (.inl ⟨b, old, must, rfl⟩)⟩
  · rcases (both g).mp there with old | fresh
    · obtain ⟨demanded, absent⟩ := demands_append_right unasked (apart g old) demanded
      exact .inr ⟨absent, mem_neededIds.mpr (.inr ⟨g, old, demanded⟩)⟩
    · have silent := silent_append_left args (fun a there named => plain a there (named ▸ fresh)) (inside g fresh)
      rw [demands_eq_nil silent.2.2] at demanded
      cases demanded

/-- The given arguments still agree beside new ones, of which those are given that have to be and are plain. -/
theorem Agree.widen (agree : Agree args given) (ignored : ∀ id ∈ added, ∀ b ∈ args, b.Ignores id) :
    Agree (new ++ args) given' where
  alone := by
    intro id member alone x there
    rcases (both id).mp member with old | fresh
    · rw [isExclusive_append_right (apart id old)] at alone
      rcases (both x).mp there with older | fresher
      · exact agree.alone id old alone x older
      · obtain ⟨b, argument, -, wants⟩ := exists_of_isExclusive alone
        simp [(ignored x fresher b argument).alone] at wants
    · have silent := silent_append_left args (fun a there named => plain a there (named ▸ fresh)) (inside id fresh)
      rw [silent.1] at alone
      cases alone
  apart := by
    intro id member x there different ruledOut
    rcases (both id).mp member with old | fresh
    · rw [conflictsOf_append_right (apart id old)] at ruledOut
      rcases (both x).mp there with older | fresher
      · exact agree.apart id old x older different ruledOut
      · obtain ⟨b, argument, -, names⟩ := mem_conflictsOf ruledOut
        exact (ignored x fresher b argument).conflicts names
    · have silent := silent_append_left args (fun a there named => plain a there (named ▸ fresh)) (inside id fresh)
      rw [silent.2.1] at ruledOut
      cases ruledOut
  needed := by
    intro a member needed
    rcases needed_before apart both plain inside unasked required other needed with fresh | ⟨absent, before⟩
    · exact .inl ((both a.id).mpr (.inr fresh))
    · have old : a ∈ args := (List.mem_append.mp member).resolve_left fun here => absent a here rfl
      exact (agree.needed a old before).imp (fun given => (both a.id).mpr (.inl given))
        (isExcused_append_right apart (fun id member => (both id).mpr (.inl member)) absent)

end Widen

end ChainRelay.Args
