import ChainRelay.Proofs.Json.Entries

/-! # The members of a name

What a slot holds in the end depends on the members of its own name: it stays as it was if there is none, and
takes the value if there is one; with more than one, or with a value that it does not take, nothing is read.
-/

namespace ChainRelay.Json

/-- The texts of the members of a name, in order. -/
def textsOf (name : String) (entries : List (String × List UInt8)) : List (List UInt8) :=
  (entries.filter (·.1 == name)).map (·.2)

theorem textsOf_same (name : String) (text : List UInt8) (entries : List (String × List UInt8)) :
    textsOf name ((name, text) :: entries) = text :: textsOf name entries := by
  simp [textsOf]

theorem textsOf_other {name other : String} (different : other ≠ name) (text : List UInt8)
    (entries : List (String × List UInt8)) : textsOf name ((other, text) :: entries) = textsOf name entries := by
  simp [textsOf, different]

theorem Entries.values {first : Bool} {entries : List (String × List UInt8)} {body : List UInt8}
    (listed : Entries first entries body) : ∀ entry ∈ entries, ValueText entry.2 := by
  induction listed with
  | done => exact nofun
  | next _ _ _ value _ ih => exact List.forall_mem_cons.mpr ⟨value, ih⟩

theorem value_of_textsOf {name : String} {text : List UInt8} {entries : List (String × List UInt8)}
    (values : ∀ entry ∈ entries, ValueText entry.2) (one : textsOf name entries = [text]) : ValueText text := by
  have member : text ∈ textsOf name entries := one ▸ List.mem_cons_self
  obtain ⟨entry, inside, rfl⟩ := List.mem_map.mp member
  exact values entry (List.mem_filter.mp inside).1

/-- Nothing if there is no member of the name; what the relation says of its text if there is one. -/
def Member (L : List UInt8 → α → Prop) (name : String) (entries : List (String × List UInt8)) (o : Option α) : Prop :=
  (textsOf name entries = [] ∧ o = none) ∨ ∃ text a, textsOf name entries = [text] ∧ L text a ∧ o = some a

/-! ## Optional members -/

/-- There is a member of this name and text, and it is not null. -/
def Given (name : String) (text : List UInt8) (entries : List (String × List UInt8)) : Prop :=
  (name, text) ∈ entries ∧ text ≠ nullText

/-- The member of this name is missing or null. -/
def Absent (name : String) (entries : List (String × List UInt8)) : Prop :=
  ∀ text, ¬Given name text entries

/-- What an optional member holds: nothing if it is absent, else what the relation says of its text. -/
inductive Holds (L : List UInt8 → α → Prop) (name : String) (entries : List (String × List UInt8)) :
    Option α → Prop where
  | absent (absent : Absent name entries) : Holds L name entries none
  | given {text : List UInt8} {a : α} (given : Given name text entries) (reads : L text a) :
      Holds L name entries (some a)

/-- The member of this name is neither null nor anything that the relation knows. -/
def Unreadable (L : List UInt8 → α → Prop) (name : String) (entries : List (String × List UInt8)) : Prop :=
  ∃ text, Given name text entries ∧ ∀ a, ¬L text a

section

variable {L : List UInt8 → α → Prop} {name : String} {text : List UInt8} {entries : List (String × List UInt8)}
  {v : Option α}

theorem mem_textsOf : text ∈ textsOf name entries ↔ (name, text) ∈ entries := by
  simp [textsOf]

/-- Without repeated names, a member is the only one of its name. -/
theorem textsOf_of_mem (distinct : (entries.map (·.1)).Nodup) (member : (name, text) ∈ entries) :
    textsOf name entries = [text] := by
  induction entries with
  | nil => cases member
  | cons entry entries ih =>
      obtain ⟨other, text'⟩ := entry
      obtain ⟨apart, distinct⟩ := List.nodup_cons.mp distinct
      rcases List.mem_cons.mp member with same | later
      · cases same
        have none : textsOf name entries = [] := List.eq_nil_iff_forall_not_mem.mpr fun text' more =>
          apart (List.mem_map.mpr ⟨_, mem_textsOf.mp more, rfl⟩)
        rw [textsOf_same, none]
      · have different : other ≠ name := fun same => apart (List.mem_map.mpr ⟨_, later, same.symm⟩)
        rw [textsOf_other different, ih distinct later]

theorem holds_iff (distinct : (entries.map (·.1)).Nodup) :
    Holds L name entries v ↔ ∃ o, Member (OptionalText L) name entries o ∧ v = o.getD none := by
  constructor
  · rintro (absent | ⟨⟨member, notNull⟩, reads⟩)
    · cases texts : textsOf name entries with
      | nil => exact ⟨none, .inl ⟨texts, rfl⟩, rfl⟩
      | cons text more =>
          have member : (name, text) ∈ entries := mem_textsOf.mp (texts ▸ List.mem_cons_self)
          have null : text = nullText := by
            by_contra notNull
            exact absent text ⟨member, notNull⟩
          exact ⟨some none, .inr ⟨text, none, textsOf_of_mem distinct member, .inl ⟨null, rfl⟩, rfl⟩, rfl⟩
    · exact ⟨_, .inr ⟨_, _, textsOf_of_mem distinct member, .inr ⟨notNull, _, reads, rfl⟩, rfl⟩, rfl⟩
  · rintro ⟨o, ⟨none, rfl⟩ | ⟨text, held, one, reads, rfl⟩, rfl⟩
    · refine .absent fun text ⟨member, _⟩ => ?_
      rw [← mem_textsOf, none] at member
      cases member
    · rcases reads with ⟨null, rfl⟩ | ⟨notNull, a, reads, rfl⟩
      · refine .absent fun text' ⟨member, notNull⟩ => ?_
        rw [← mem_textsOf, one, List.mem_singleton] at member
        exact notNull (member.trans null)
      · exact .given ⟨mem_textsOf.mp (one ▸ List.mem_cons_self), notNull⟩ reads

theorem unreadable_or_holds (L : List UInt8 → α → Prop) (name : String) (entries : List (String × List UInt8)) :
    Unreadable L name entries ∨ ∃ v, Holds L name entries v := by
  by_cases absent : Absent name entries
  · exact .inr ⟨none, .absent absent⟩
  · obtain ⟨text, given⟩ := not_forall_not.mp absent
    by_cases known : ∃ a, L text a
    · obtain ⟨a, reads⟩ := known
      exact .inr ⟨some a, .given given reads⟩
    · exact .inl ⟨text, given, not_exists.mp known⟩

/-- Without repeated names, a member that cannot be read holds nothing. -/
theorem Unreadable.not_holds (unreadable : Unreadable L name entries) (distinct : (entries.map (·.1)).Nodup) :
    ¬Holds L name entries v := by
  obtain ⟨text, given, unknown⟩ := unreadable
  rintro (absent | ⟨given', reads⟩)
  · exact absent text given
  · have same := (textsOf_of_mem distinct given.1).symm.trans (textsOf_of_mem distinct given'.1)
    rw [← List.singleton_inj.mp same] at reads
    exact unknown _ reads

end

/-! ## What a slot holds -/

namespace Shape

variable {shape : Shape σ α} {D : String → List UInt8 → (σ → σ) → Prop} {record filled : σ}
  {entries : List (String × List UInt8)} {name : String} {get : σ → Option β} {L : List UInt8 → β → Prop}

/-- The slot of a name has a place in the record where nothing is put but what is read from its texts. -/
structure Keeps (shape : Shape σ α) (D : String → List UInt8 → (σ → σ) → Prop) (name : String) (get : σ → Option β)
    (L : List UInt8 → β → Prop) : Prop where
  declared : ∃ slot ∈ shape.slots, slot.name = name
  shows : ∀ slot ∈ shape.slots, slot.name = name → ∀ record, slot.filled record = (get record).isSome
  takes : ∀ {text a}, L text a → ∃ put, D name text put
  puts : ∀ {text put}, D name text put → ∀ record, ∃ a, L text a ∧ get (put record) = some a
  others : ∀ {other text put}, other ≠ name → D other text put → ∀ record, get (put record) = get record
  unique : ∀ {text a b}, ValueText text → L text a → L text b → a = b

/-- One member changes the place of its own name only. -/
theorem Step.kept (keeps : shape.Keeps D name get L) {other : String} {text : List UInt8}
    (step : shape.Step D record (other, text) filled) :
    (other ≠ name ∧ get filled = get record) ∨
      (other = name ∧ get record = none ∧ ∃ a, L text a ∧ get filled = some a) := by
  by_cases same : other = name
  · subst same
    cases step with
    | leave unknown =>
        obtain ⟨slot, member, named⟩ := keeps.declared
        simpa [named] using List.find?_eq_none.mp unknown slot member
    | put declared free reads =>
        obtain ⟨member, named⟩ := slot_of_find? declared
        rw [keeps.shows _ member named, Option.isSome_eq_false_iff, Option.isNone_iff_eq_none] at free
        exact .inr ⟨rfl, free, keeps.puts reads record⟩
  · cases step with
    | leave => exact .inl ⟨same, rfl⟩
    | put _ _ reads => exact .inl ⟨same, keeps.others same reads record⟩

/-- What the place of a name holds behind all the members. -/
theorem Gathers.kept (keeps : shape.Keeps D name get L) (gathers : shape.Gathers D record entries filled) :
    (textsOf name entries = [] ∧ get filled = get record) ∨
      (get record = none ∧ ∃ text a, textsOf name entries = [text] ∧ L text a ∧ get filled = some a) := by
  -- A place that one member has filled is not free for a second one.
  induction gathers with
  | done => exact .inl ⟨rfl, rfl⟩
  | @next record between filled entry entries step _ ih =>
      obtain ⟨other, text⟩ := entry
      rcases step.kept keeps with ⟨different, same⟩ | ⟨rfl, free, a, reads, taken⟩
      · rw [textsOf_other different, ← same]
        exact ih
      · rw [textsOf_same]
        rcases ih with ⟨none, same⟩ | ⟨free', _⟩
        · exact .inr ⟨free, text, a, by rw [none], reads, same.trans taken⟩
        · rw [taken] at free'
          cases free'

theorem Gathers.member (keeps : shape.Keeps D name get L) (gathers : shape.Gathers D record entries filled)
    (free : get record = none) : Member L name entries (get filled) := by
  rcases gathers.kept keeps with ⟨none, same⟩ | ⟨-, held⟩
  · exact .inl ⟨none, same.trans free⟩
  · exact .inr held

theorem Keeps.member_unique (keeps : shape.Keeps D name get L) (values : ∀ entry ∈ entries, ValueText entry.2)
    {o o' : Option β} (first : Member L name entries o) (second : Member L name entries o') : o = o' := by
  rcases first with ⟨none, rfl⟩ | ⟨text, a, one, reads, rfl⟩
  · rcases second with ⟨-, rfl⟩ | ⟨text', _, one', -, -⟩
    · rfl
    · cases none.symm.trans one'
  · rcases second with ⟨none, -⟩ | ⟨text', a', one', reads', rfl⟩
    · cases none.symm.trans one
    · obtain rfl : text = text' := by simpa using one.symm.trans one'
      rw [keeps.unique (value_of_textsOf values one) reads reads']

/-- The members are taken if each slot has one member at most, of which it takes the text. -/
theorem exists_gathers
    (apart : ∀ slot ∈ shape.slots, ∀ text put, D slot.name text put → ∀ other ∈ shape.slots,
      other.name ≠ slot.name → ∀ record, other.filled (put record) = other.filled record)
    (each : ∀ slot ∈ shape.slots, textsOf slot.name entries = [] ∨
      slot.filled record = false ∧ ∃ text put, textsOf slot.name entries = [text] ∧ D slot.name text put) :
    ∃ filled, shape.Gathers D record entries filled := by
  induction entries generalizing record with
  | nil => exact ⟨record, .done⟩
  | cons entry entries ih =>
      obtain ⟨s, text⟩ := entry
      cases declared : shape.slots.find? (·.name == s) with
      | none =>
          have later : ∀ slot ∈ shape.slots, textsOf slot.name ((s, text) :: entries) = textsOf slot.name entries := by
            intro slot member
            refine textsOf_other ?_ text entries
            rintro rfl
            simpa using List.find?_eq_none.mp declared slot member
          obtain ⟨filled, gathers⟩ := ih fun slot member => later slot member ▸ each slot member
          exact ⟨filled, .next (.leave declared) gathers⟩
      | some slot =>
          obtain ⟨member, rfl⟩ := slot_of_find? declared
          have here := each slot member
          rw [textsOf_same] at here
          obtain ⟨free, text', put, only, reads⟩ := here.resolve_left (List.cons_ne_nil _ _)
          obtain ⟨rfl, none⟩ := List.cons.inj only
          -- The slot of this member has no further one; the other slots are as free as before.
          have later : ∀ other ∈ shape.slots, textsOf other.name entries = [] ∨
              other.filled (put record) = false ∧ ∃ text put,
                textsOf other.name entries = [text] ∧ D other.name text put := by
            intro other member'
            by_cases same : other.name = slot.name
            · exact .inl (same ▸ none)
            · have others := each other member'
              rwa [textsOf_other (Ne.symm same), ← apart slot member _ put reads other member' same record] at others
          obtain ⟨filled, gathers⟩ := ih later
          exact ⟨filled, .next (.put declared free reads) gathers⟩

/-- A record of two slots holds what the members of the two names say. -/
theorem gathers_iff {name' : String} {get' : σ → Option γ} {L' : List UInt8 → γ → Prop}
    (keeps : shape.Keeps D name get L) (keeps' : shape.Keeps D name' get' L')
    (two : ∀ slot ∈ shape.slots, slot.name = name ∨ slot.name = name') (free : get record = none)
    (free' : get' record = none) (values : ∀ entry ∈ entries, ValueText entry.2) {o : Option β} {o' : Option γ} :
    (∃ filled, shape.Gathers D record entries filled ∧ get filled = o ∧ get' filled = o') ↔
      Member L name entries o ∧ Member L' name' entries o' := by
  constructor
  · rintro ⟨filled, gathers, rfl, rfl⟩
    exact ⟨gathers.member keeps free, gathers.member keeps' free'⟩
  · rintro ⟨holds, holds'⟩
    obtain ⟨filled, gathers⟩ : ∃ filled, shape.Gathers D record entries filled := by
      refine exists_gathers (fun slot member text put reads other member' apart record => ?_) fun slot member => ?_
      · rcases two other member' with named | named
        · rw [keeps.shows other member' named, keeps.shows other member' named,
            keeps.others (named ▸ apart.symm) reads]
        · rw [keeps'.shows other member' named, keeps'.shows other member' named,
            keeps'.others (named ▸ apart.symm) reads]
      · rcases two slot member with named | named
        · rcases holds with ⟨none, -⟩ | ⟨text, a, one, reads, -⟩
          · exact .inl (named ▸ none)
          · obtain ⟨put, puts⟩ := keeps.takes reads
            exact .inr ⟨by rw [keeps.shows slot member named, free]; rfl, text, put, named ▸ ⟨one, puts⟩⟩
        · rcases holds' with ⟨none, -⟩ | ⟨text, a, one, reads, -⟩
          · exact .inl (named ▸ none)
          · obtain ⟨put, puts⟩ := keeps'.takes reads
            exact .inr ⟨by rw [keeps'.shows slot member named, free']; rfl, text, put, named ▸ ⟨one, puts⟩⟩
    exact ⟨filled, gathers, keeps.member_unique values (gathers.member keeps free) holds,
      keeps'.member_unique values (gathers.member keeps' free') holds'⟩

/-! ## Records of two fields -/

/-- A field of a record that is being read: what its texts mean, and where its value goes. -/
structure Place (σ β : Type) where
  name : String
  means : List UInt8 → β → Prop
  get : σ → Option β
  put : β → σ → σ

/-- A text is put into the place that has its name. -/
def Puts (p : Place σ β) (q : Place σ γ) (name : String) (text : List UInt8) (put : σ → σ) : Prop :=
  (name = p.name ∧ ∃ a, p.means text a ∧ put = p.put a) ∨ (name = q.name ∧ ∃ b, q.means text b ∧ put = q.put b)

/-- A slot of the record has this place, and the other place is not in its way. -/
structure Beside (shape : Shape σ α) (p : Place σ β) (q : Place σ γ) : Prop where
  declared : ∃ slot ∈ shape.slots, slot.name = p.name
  shows : ∀ slot ∈ shape.slots, slot.name = p.name → ∀ record, slot.filled record = (p.get record).isSome
  apart : p.name ≠ q.name
  got : ∀ a record, p.get (p.put a record) = some a
  kept : ∀ b record, p.get (q.put b record) = p.get record
  unique : ∀ {text a b}, ValueText text → p.means text a → p.means text b → a = b

variable {p : Place σ β} {q : Place σ γ}

theorem Beside.keeps (beside : shape.Beside p q) : shape.Keeps (Puts p q) p.name p.get p.means where
  declared := beside.declared
  shows := beside.shows
  takes reads := ⟨_, .inl ⟨rfl, _, reads, rfl⟩⟩
  puts := by
    rintro text put (⟨-, a, reads, rfl⟩ | ⟨same, -⟩) record
    · exact ⟨a, reads, beside.got a record⟩
    · exact absurd same beside.apart
  others := by
    rintro other text put different (⟨same, -⟩ | ⟨-, b, -, rfl⟩) record
    · exact absurd same different
    · exact beside.kept b record
  unique := beside.unique

theorem puts_comm (p : Place σ β) (q : Place σ γ) : Puts p q = Puts q p := by
  funext name text put
  exact propext Or.comm

theorem Beside.keeps_second (beside : shape.Beside q p) : shape.Keeps (Puts p q) q.name q.get q.means :=
  puts_comm q p ▸ beside.keeps

end Shape

end ChainRelay.Json
