import ChainRelay.Proofs.Args.Kin
import ChainRelay.Proofs.Args.Relations

/-! # Completing a level

What a command line leaves out is filled in from the environment and then from the defaults. Either adds
values after those that are there and changes none of them.
-/

namespace ChainRelay.Args

namespace Matches

theorem get?_eq_none_iff {m : Matches} {id : String} : m.get? id = none ↔ ∀ r ∈ m, r.id ≠ id := by
  simp [get?]

theorem isSome_get?_iff {m : Matches} {id : String} : (m.get? id).isSome ↔ ∃ r ∈ m, r.id = id := by
  simp [get?]

theorem erase_absent {m : Matches} {id : String} (absent : m.get? id = none) : m.erase id = m := by
  rw [erase, List.filter_eq_self]
  intro r member
  simpa using get?_eq_none_iff.mp absent r member

theorem put_absent {m : Matches} {r : Received} (absent : m.get? r.id = none) : m.put r = m ++ [r] := by
  have none : (m.any fun old => old.id == r.id) = false := by
    simpa using get?_eq_none_iff.mp absent
  rw [put, none]
  rfl

theorem mem_put {m : Matches} {r r' : Received} (member : r' ∈ m.put r) : r' = r ∨ r' ∈ m := by
  rw [put] at member
  split at member
  · obtain ⟨old, inside, rfl⟩ := List.mem_map.mp member
    split
    · exact .inl rfl
    · exact .inr inside
  · cases List.mem_append.mp member with
    | inl old => exact .inr old
    | inr last => exact .inl (List.mem_singleton.mp last)

/-- What has been received for other ids. -/
def outside (ids : List String) (m : Matches) : Matches :=
  m.filter fun r => !ids.contains r.id

theorem mem_outside {ids : List String} {m : Matches} {r : Received} :
    r ∈ m.outside ids ↔ r ∈ m ∧ r.id ∉ ids := by
  simp [outside]

theorem get?_outside {ids : List String} {id : String} (other : id ∉ ids) (m : Matches) :
    (m.outside ids).get? id = m.get? id := by
  rw [get?, get?, outside, List.find?_filter]
  congr 1
  funext r
  by_cases same : r.id = id
  · simp [same, other]
  · simp [same]

theorem get?_congr {ids : List String} {id : String} (other : id ∉ ids) {m m' : Matches}
    (same : m.outside ids = m'.outside ids) : m.get? id = m'.get? id := by
  rw [← get?_outside other m, same, get?_outside other]

theorem get?_of_prefix {m m' : Matches} (front : m <+: m') {id : String} {r : Received}
    (found : m.get? id = some r) : m'.get? id = some r := by
  obtain ⟨more, rfl⟩ := front
  rw [get?] at found
  rw [get?, List.find?_append, found, Option.some_or]

end Matches

theorem receive_absent {source : Source} {a : ArgSpec} {m : Matches} (absent : m.get? a.id = none)
    (v : RawText) :
    receive source a (some v) m = match holdValue a none (some v) with
      | .ok held => (m ++ [{ id := a.id, kind := a.kind, source, held }], none)
      | .error problem =>
        (m ++ [{ id := a.id, kind := a.kind, source, held := nothingHeld a none }], some (.value a problem)) := by
  have base : (if a.action = .count then m.erase a.id else m) = m := by
    rw [Matches.erase_absent absent, ite_self]
  have put (held : Held) : m.put { id := a.id, kind := a.kind, source, held } =
      m ++ [{ id := a.id, kind := a.kind, source, held }] := Matches.put_absent absent
  cases admitted : holdValue a none (some v) with
  | ok held => simp [receive, absent, base, put, admitted]
  | error problem => simp [receive, absent, base, put, admitted]

/-- A source adds what it has for the arguments that have nothing yet. -/
inductive Fills (source : Source) (value? : ArgSpec → Option RawText) :
    List ArgSpec → Matches → Matches → Prop where
  | nil {m : Matches} : Fills source value? [] m m
  | pass {a : ArgSpec} {rest : List ArgSpec} {m m' : Matches} (kept : value? a = none ∨ (m.get? a.id).isSome)
      (later : Fills source value? rest m m') : Fills source value? (a :: rest) m m'
  | add {a : ArgSpec} {rest : List ArgSpec} {m m' : Matches} {v : RawText} {held : Held}
      (value : value? a = some v) (absent : m.get? a.id = none) (admitted : holdValue a none (some v) = .ok held)
      (later : Fills source value? rest (m ++ [{ id := a.id, kind := a.kind, source, held }]) m') :
      Fills source value? (a :: rest) m m'

/-- What a source has for some ids is there already or can be filled in. -/
def Admits (value? : ArgSpec → Option RawText) (ids : List String) (args : List ArgSpec) (m : Matches) : Prop :=
  ∀ a ∈ args, a.id ∈ ids → ∀ v, value? a = some v →
    (m.get? a.id).isSome ∨ ∃ held, holdValue a none (some v) = .ok held

/-- The value of the environment that stands in for an argument. -/
abbrev standIn? (a : ArgSpec) : Option RawText :=
  a.env.bind (·.value)

section Fills

variable {source : Source} {value? : ArgSpec → Option RawText} {args : List ArgSpec} {m m' : Matches}

theorem fills_cons_iff {a : ArgSpec} :
    Fills source value? (a :: args) m m' ↔
      match value? a with
      | none => Fills source value? args m m'
      | some v =>
        if (m.get? a.id).isSome then Fills source value? args m m'
        else ∃ m₁, receive source a (some v) m = (m₁, none) ∧ Fills source value? args m₁ m' := by
  constructor
  · intro fills
    cases fills with
    | pass kept later =>
        split
        · exact later
        · next v value =>
            rw [value] at kept
            rw [if_pos (kept.resolve_left (by simp))]
            exact later
    | add value absent admitted later =>
        rw [value]
        simp only [absent, Option.isSome_none, Bool.false_eq_true, if_false]
        exact ⟨_, by rw [receive_absent absent, admitted], later⟩
  · intro fills
    split at fills
    · next value => exact .pass (.inl value) fills
    · next v value =>
        split at fills
        · next kept => exact .pass (.inr kept) fills
        · next kept =>
            have absent : m.get? a.id = none := by simpa using kept
            obtain ⟨m₁, received, later⟩ := fills
            rw [receive_absent absent] at received
            split at received
            · next held admitted =>
                cases received
                exact .add value absent admitted later
            · cases received

theorem receiveEnvironment_eq_iff :
    receiveEnvironment args m = (m', none) ↔ Fills .environment standIn? args m m' := by
  induction args generalizing m with
  | nil =>
      constructor
      · intro same
        cases same
        exact .nil
      · intro fills
        cases fills
        rfl
  | cons a rest ih =>
      simp only [fills_cons_iff, receiveEnvironment, standIn?]
      cases a.env.bind (·.value) with
      | none => exact ih
      | some v =>
          dsimp only
          split
          · exact ih
          · rcases receive .environment a (some v) m with ⟨m₁, _ | cause⟩
            · simp [ih]
            · simp

theorem receiveDefaults_eq_iff :
    receiveDefaults args m = (m', none) ↔ Fills .default defaultValue? args m m' := by
  induction args generalizing m with
  | nil =>
      constructor
      · intro same
        cases same
        exact .nil
      · intro fills
        cases fills
        rfl
  | cons a rest ih =>
      rw [fills_cons_iff, receiveDefaults]
      cases defaultValue? a with
      | none => exact ih
      | some v =>
          dsimp only
          split
          · exact ih
          · rcases receive .default a (some v) m with ⟨m₁, _ | cause⟩
            · simp [ih]
            · simp

theorem Fills.isPrefix (fills : Fills source value? args m m') : m <+: m' := by
  induction fills with
  | nil => exact List.prefix_refl _
  | pass kept later ih => exact ih
  | add value absent admitted later ih => exact (List.prefix_append _ _).trans ih

/-- What a source adds is for arguments that it has values for. -/
theorem Fills.added (fills : Fills source value? args m m') :
    ∀ r ∈ m', r ∈ m ∨ r.source = source ∧ ∃ a ∈ args, a.id = r.id ∧ (value? a).isSome := by
  induction fills with
  | nil =>
      intro r member
      exact .inl member
  | pass kept later ih =>
      intro r member
      cases ih r member with
      | inl old => exact .inl old
      | inr new =>
          obtain ⟨from_, a, inside, same, value⟩ := new
          exact .inr ⟨from_, a, List.mem_cons_of_mem _ inside, same, value⟩
  | add value absent admitted later ih =>
      intro r member
      cases ih r member with
      | inl old =>
          cases List.mem_append.mp old with
          | inl older => exact .inl older
          | inr here =>
              obtain rfl := List.mem_singleton.mp here
              exact .inr ⟨rfl, _, List.mem_cons_self, rfl, by rw [value]; rfl⟩
      | inr new =>
          obtain ⟨from_, a, inside, same, value⟩ := new
          exact .inr ⟨from_, a, List.mem_cons_of_mem _ inside, same, value⟩

/-- An argument that a source has a value for has something in the end. -/
theorem Fills.present (fills : Fills source value? args m m') :
    ∀ a ∈ args, (value? a).isSome → (m'.get? a.id).isSome := by
  induction fills with
  | nil =>
      intro a absent
      cases absent
  | pass kept later ih =>
      intro a member value
      cases List.mem_cons.mp member with
      | inl here =>
          subst here
          have old := kept.resolve_left (by simpa using Option.isSome_iff_ne_none.mp value)
          obtain ⟨r, inside, same⟩ := Matches.isSome_get?_iff.mp old
          exact Matches.isSome_get?_iff.mpr ⟨r, later.isPrefix.subset inside, same⟩
      | inr inside => exact ih a inside value
  | add value absent admitted later ih =>
      intro a member some
      cases List.mem_cons.mp member with
      | inl here =>
          subst here
          have last := later.isPrefix.subset (List.mem_append_right _ List.mem_cons_self)
          exact Matches.isSome_get?_iff.mpr ⟨_, last, rfl⟩
      | inr inside => exact ih a inside some

/-- A source fills in values that are all admitted. -/
theorem fills_of_admitted (admitted : ∀ a ∈ args, ∀ v, value? a = some v →
    (m.get? a.id).isSome ∨ ∃ held, holdValue a none (some v) = .ok held) :
    ∃ m', Fills source value? args m m' := by
  induction args generalizing m with
  | nil => exact ⟨m, .nil⟩
  | cons a rest ih =>
      obtain ⟨here, others⟩ := List.forall_mem_cons.mp admitted
      cases value : value? a with
      | none =>
          obtain ⟨m', later⟩ := ih others
          exact ⟨m', .pass (.inl value) later⟩
      | some v =>
          cases found : m.get? a.id with
          | some r =>
              obtain ⟨m', later⟩ := ih others
              exact ⟨m', .pass (.inr (by rw [found]; rfl)) later⟩
          | none =>
              obtain ⟨held, good⟩ := (here v value).resolve_left (by simp [found])
              obtain ⟨m', later⟩ := ih (m := m ++ [{ id := a.id, kind := a.kind, source, held }]) (by
                intro b member w value
                cases others b member w value with
                | inl old =>
                    obtain ⟨r, inside, same⟩ := Matches.isSome_get?_iff.mp old
                    exact .inl (Matches.isSome_get?_iff.mpr ⟨r, List.mem_append_left _ inside, same⟩)
                | inr good => exact .inr good)
              exact ⟨m', .add value found good later⟩

theorem fills_of_none (none : ∀ a ∈ args, value? a = none) : Fills source value? args m m := by
  induction args with
  | nil => exact .nil
  | cons a rest ih =>
      obtain ⟨here, others⟩ := List.forall_mem_cons.mp none
      exact .pass (.inl here) (ih others)

theorem Fills.append {more : List ArgSpec} {m₁ : Matches} (first : Fills source value? args m m₁)
    (second : Fills source value? more m₁ m') : Fills source value? (args ++ more) m m' := by
  induction first with
  | nil => exact second
  | pass kept later ih => exact .pass kept (ih second)
  | add value absent admitted later ih => exact .add value absent admitted (ih second)

variable {ids : List String}

theorem Fills.outside_eq (fills : Fills source value? args m m') (inside : ∀ a ∈ args, a.id ∈ ids) :
    m'.outside ids = m.outside ids := by
  induction fills with
  | nil => rfl
  | pass kept later ih => exact ih (List.forall_mem_cons.mp inside).2
  | add value absent admitted later ih =>
      obtain ⟨here, others⟩ := List.forall_mem_cons.mp inside
      rw [ih others, Matches.outside, List.filter_append]
      simp [Matches.outside, here]

theorem Admits.prefix_ (admits : Admits value? ids args m) (front : m <+: m') : Admits value? ids args m' := by
  intro a member inside v value
  cases admits a member inside v value with
  | inr good => exact .inr good
  | inl held =>
      obtain ⟨r, found⟩ := Option.isSome_iff_exists.mp held
      exact .inl (by rw [Matches.get?_of_prefix front found, Option.isSome_some])

/-- One of the ids is filled in, and the others of them still can be. -/
theorem Admits.first {a : ArgSpec} (admits : Admits value? ids (a :: args) m) (inside : a.id ∈ ids) :
    ∃ m₁, Fills source value? [a] m m₁ ∧ m₁.outside ids = m.outside ids ∧ Admits value? ids args m₁ := by
  obtain ⟨here, others⟩ := List.forall_mem_cons.mp admits
  obtain ⟨m₁, first⟩ : ∃ m₁, Fills source value? [a] m m₁ := fills_of_admitted (by simpa using here inside)
  exact ⟨m₁, first, first.outside_eq (by simpa using inside), Admits.prefix_ others first.isPrefix⟩

/-- What a source fills in for other ids it also fills in where some ids have received something else. -/
theorem Fills.across {m₁ : Matches} (fills : Fills source value? args m m') (same : m₁.outside ids = m.outside ids)
    (admits : Admits value? ids args m₁) :
    ∃ m₁', Fills source value? args m₁ m₁' ∧ m₁'.outside ids = m'.outside ids := by
  induction fills generalizing m₁ with
  | nil => exact ⟨m₁, .nil, same⟩
  | @pass a rest m m' kept later ih =>
      by_cases inside : a.id ∈ ids
      · obtain ⟨m₂, first, apart, still⟩ := admits.first inside
        obtain ⟨m₁', fills, after⟩ := ih (apart.trans same) still
        exact ⟨m₁', first.append fills, after⟩
      · obtain ⟨m₁', fills, after⟩ := ih same (List.forall_mem_cons.mp admits).2
        rw [← Matches.get?_congr inside same] at kept
        exact ⟨m₁', .pass kept fills, after⟩
  | @add a rest m m' v held value absent good later ih =>
      by_cases inside : a.id ∈ ids
      · obtain ⟨m₂, first, apart, still⟩ := admits.first inside
        have same' : m₂.outside ids = Matches.outside ids (m ++ [{ id := a.id, kind := a.kind, source, held }]) := by
          rw [apart, same]
          simp [Matches.outside, inside]
        obtain ⟨m₁', fills, after⟩ := ih same' still
        exact ⟨m₁', first.append fills, after⟩
      · have same' : Matches.outside ids (m₁ ++ [{ id := a.id, kind := a.kind, source, held }]) =
            Matches.outside ids (m ++ [{ id := a.id, kind := a.kind, source, held }]) := by
          simp only [Matches.outside, List.filter_append] at same ⊢
          rw [same]
        have still := Admits.prefix_ (List.forall_mem_cons.mp admits).2
          (List.prefix_append m₁ [{ id := a.id, kind := a.kind, source, held }])
        obtain ⟨m₁', fills, after⟩ := ih same' still
        exact ⟨m₁', .add value ((Matches.get?_congr inside same).trans absent) good fills, after⟩

/-- What has been received for some ids does not bear on the others. -/
theorem Fills.transport {m₁ : Matches} (fills : Fills source value? args m m')
    (apart : ∀ a ∈ args, a.id ∉ ids ∨ value? a = none) (same : m₁.outside ids = m.outside ids) :
    ∃ m₁', Fills source value? args m₁ m₁' ∧ m₁'.outside ids = m'.outside ids := by
  apply fills.across same
  intro a member inside v value
  cases apart a member with
  | inl other => exact absurd inside other
  | inr none =>
      rw [value] at none
      cases none

end Fills

theorem received_eq_ok_iff (l : Level) (r : Matches × Option Cause) (m : Matches) :
    (match r with
      | (m, none) => .ok m
      | (_, some cause) => .error (refuse l cause) : Except Stop Matches) = .ok m ↔ r = (m, none) := by
  rcases r with ⟨m', _ | cause⟩ <;> simp

/-- A level is completed exactly if both sources fill in what they have and what was given agrees then. -/
theorem complete_eq_ok_iff {l : Level} {hasChild : Bool} {s : Scan} {m : Matches} :
    complete l hasChild s = .ok m ↔
      ∃ s' m', settled l s = .ok s' ∧ Fills .environment standIn? l.args s'.matched m' ∧
        Fills .default defaultValue? l.args m' m ∧ (hasChild = true ∨ l.needsChild = false) ∧
        Agree l.args m.explicitIds := by
  have alone : (!hasChild && l.needsChild) = false ↔ hasChild = true ∨ l.needsChild = false := by
    cases hasChild <;> simp
  simp only [← receiveEnvironment_eq_iff, ← receiveDefaults_eq_iff, ← checkGiven_eq_ok_iff]
  unfold complete
  simp only [bind_eq_ok_iff]
  constructor
  · intro ⟨s', first, m', environment, m'', defaults, last⟩
    split at last
    · cases last
    · next unneeded =>
        obtain ⟨⟨⟩, agree, done⟩ := bind_eq_ok_iff.mp last
        cases done
        exact ⟨s', m', first, (received_eq_ok_iff l _ _).mp environment, (received_eq_ok_iff l _ _).mp defaults,
          alone.mp (Bool.not_eq_true _ ▸ unneeded), agree⟩
  · intro ⟨s', m', first, environment, defaults, unneeded, agree⟩
    refine ⟨s', first, m', (received_eq_ok_iff l _ _).mpr environment, m,
      (received_eq_ok_iff l _ _).mpr defaults, ?_⟩
    rw [alone.mpr unneeded, agree]
    rfl

end ChainRelay.Args
