import ChainRelay.Proofs.Json.Results
import ChainRelay.Proofs.Text.Encoding
import ChainRelay.Schema

/-! # The verdicts of a schema

A schema accepts a configuration, or it names the first thing that is wrong with it. A member that is not
declared comes first, and among those the one whose name is least in the order of bytes; then come the
fields as they are declared.
-/

namespace ChainRelay

open Json (Value Members)

/-! ## Members -/

namespace Json.Members

theorem get?_of_mem {members : Members} (ascending : members.names.Pairwise (· < ·))
    {m : String × Value} (member : m ∈ members) : members.get? m.1 = some m.2 := by
  induction members with
  | nil => cases member
  | cons first rest ih =>
      obtain ⟨before, others⟩ := List.pairwise_cons.mp ascending
      rcases List.mem_cons.mp member with rfl | later
      · exact if_pos rfl
      · have less : first.1 < m.1 := before m.1 (List.mem_map_of_mem later)
        have different : ¬first.1 = m.1 := fun same => String.lt_irrefl _ (same ▸ less)
        rw [get?, if_neg different]
        exact ih others later

theorem get?_eq_some_iff {members : Members} (ascending : members.names.Pairwise (· < ·)) {name : String}
    {v : Value} : members.get? name = some v ↔ (name, v) ∈ members := by
  constructor
  · intro found
    induction members with
    | nil => cases found
    | cons first rest ih =>
        obtain ⟨other, w⟩ := first
        by_cases same : other = name
        · simp only [get?, same, if_true, Option.some.injEq] at found
          simp [same, found]
        · simp only [get?, same, if_false] at found
          exact List.mem_cons_of_mem _ (ih (List.pairwise_cons.mp ascending).2 found)
  · exact fun member => get?_of_mem ascending member

theorem get?_eq_none_iff {members : Members} (ascending : members.names.Pairwise (· < ·))
    {name : String} : members.get? name = none ↔ name ∉ members.names := by
  rw [Option.eq_none_iff_forall_ne_some]
  simp [get?_eq_some_iff ascending, names]

theorem nodup_names {members : Members} (ascending : members.names.Pairwise (· < ·)) : members.names.Nodup := by
  refine ascending.imp ?_
  rintro a b less rfl
  exact String.lt_irrefl _ less

end Json.Members

/-! ## Kinds -/

/-- The value is of the kind. -/
inductive FieldKind.Covers : FieldKind → Value → Prop where
  | string (s : String) : Covers .string (.string s)
  | integer (n : Int) (fits : -0x8000000000000000 ≤ n ∧ n < 0x10000000000000000) :
    Covers .integer (.number (.int n fits))
  | boolean (b : Bool) : Covers .boolean (.bool b)
  | object (members : Members) : Covers .object (.object members)
  | array (items : List Value) : Covers .array (.array items)
  | any (v : Value) : Covers .any v

theorem FieldKind.holds_iff {kind : FieldKind} {v : Value} : kind.holds v = true ↔ kind.Covers v := by
  constructor
  · intro held
    unfold holds at held
    split at held
    · exact .string _
    · exact .integer _ _
    · exact .boolean _
    · exact .object _
    · exact .array _
    · exact .any _
    · cases held
  · rintro ⟨⟩ <;> rfl

/-- Null is of no kind but the one of all values. -/
theorem FieldKind.covers_null_iff {kind : FieldKind} : kind.Covers .null ↔ kind = .any := by
  constructor
  · rintro ⟨⟩
    rfl
  · rintro rfl
    exact .any _

/-! ## Fields -/

/-- What is wrong with the members of an object, as far as the field goes. -/
inductive Field.Breaks (f : Field) (members : Members) : SchemaError → Prop where
  | absent (required : f.isRequired) (absent : f.name ∉ members.names) : Breaks f members (.missingField f.name)
  | null (required : f.isRequired) (member : (f.name, .null) ∈ members) : Breaks f members (.missingField f.name)
  | kind {v : Value} (member : (f.name, v) ∈ members) (given : f.isRequired → v ≠ .null) (other : ¬f.kind.Covers v) :
    Breaks f members (.wrongType f.name f.kind v.typeName)

/-- The members of an object give the field what it wants. -/
structure Field.MetBy (f : Field) (members : Members) : Prop where
  filled : f.isRequired → ∃ v, (f.name, v) ∈ members ∧ v ≠ .null
  covers : ∀ v, (f.name, v) ∈ members → f.kind.Covers v

namespace Field

variable {f : Field} {members : Members} {e : SchemaError}

theorem violation?_required (required : f.isRequired) : f.violation? (some .null) = some (.missingField f.name) :=
  if_pos required

/-- A value that counts is compared with the kind. -/
theorem violation?_given {v : Value} (given : f.isRequired → v ≠ .null) :
    f.violation? (some v) = if f.kind.holds v then none else some (.wrongType f.name f.kind v.typeName) := by
  cases v with
  | null =>
      have optional : ¬f.isRequired := fun required => given required rfl
      exact if_neg optional
  | bool | number | string | array | object => rfl

section

variable (ascending : members.names.Pairwise (· < ·))
include ascending

theorem violation?_eq_some_iff : f.violation? (members.get? f.name) = some e ↔ f.Breaks members e := by
  constructor
  · intro broken
    cases found : members.get? f.name with
    | none =>
        rw [found] at broken
        simp only [violation?] at broken
        split at broken
        · next required =>
            cases broken
            exact .absent required ((Members.get?_eq_none_iff ascending).mp found)
        · cases broken
    | some v =>
        have member := (Members.get?_eq_some_iff ascending).mp found
        rw [found] at broken
        by_cases null : f.isRequired ∧ v = .null
        · obtain ⟨required, rfl⟩ := null
          cases (violation?_required required).symm.trans broken
          exact .null required member
        · have given : f.isRequired → v ≠ .null := fun required same => null ⟨required, same⟩
          rw [violation?_given given] at broken
          split at broken
          · cases broken
          · next other =>
              cases broken
              exact .kind member given (mt FieldKind.holds_iff.mpr other)
  · rintro (⟨required, absent⟩ | ⟨required, member⟩ | ⟨member, given, other⟩)
    · rw [(Members.get?_eq_none_iff ascending).mpr absent]
      exact if_pos required
    · rw [Members.get?_of_mem ascending member]
      exact violation?_required required
    · rw [Members.get?_of_mem ascending member, violation?_given given]
      exact if_neg (mt FieldKind.holds_iff.mp other)

theorem violation?_eq_none_iff : f.violation? (members.get? f.name) = none ↔ f.MetBy members := by
  rw [Option.eq_none_iff_forall_ne_some]
  simp only [ne_eq, violation?_eq_some_iff ascending]
  constructor
  · intro sound
    refine ⟨fun required => ?_, fun v member => ?_⟩
    · by_cases there : f.name ∈ members.names
      · obtain ⟨⟨name, v⟩, member, rfl⟩ := List.mem_map.mp there
        exact ⟨v, member, fun null => sound _ (.null required (null ▸ member))⟩
      · exact absurd (.absent required there) (sound (.missingField f.name))
    · by_cases null : f.isRequired ∧ v = .null
      · obtain ⟨required, rfl⟩ := null
        exact absurd (.null required member) (sound (.missingField f.name))
      · have given : f.isRequired → v ≠ .null := fun required same => null ⟨required, same⟩
        exact Classical.byContradiction fun other => sound _ (.kind member given other)
  · rintro met e (⟨required, absent⟩ | ⟨required, member⟩ | ⟨member, given, other⟩)
    · obtain ⟨v, member, -⟩ := met.filled required
      exact absent (List.mem_map_of_mem member)
    · obtain ⟨v, member', given⟩ := met.filled required
      have same := Members.get?_of_mem ascending member
      rw [Members.get?_of_mem ascending member'] at same
      exact given (Option.some.inj same)
    · exact other (met.covers _ member)

end

end Field

/-! ## Schemas -/

namespace Schema

/-- The schema has a field of the name. -/
def Declares (schema : Schema) (name : String) : Prop :=
  ∃ f ∈ schema, f.name = name

/-- The name is not declared, and no other name of a member that is not declared has lesser bytes. -/
structure FirstUnknown (schema : Schema) (members : Members) (name : String) : Prop where
  member : name ∈ members.names
  unknown : ¬schema.Declares name
  least : ∀ other ∈ members.names, ¬schema.Declares other → utf8Bytes name ≤ utf8Bytes other

/-- The configuration is as the schema wants it. -/
inductive Accepts (schema : Schema) : Value → Prop where
  | null (optional : ∀ f ∈ schema, ¬f.isRequired) : Accepts schema .null
  | object {members : Members} (declared : ∀ name ∈ members.names, schema.Declares name)
    (met : ∀ f ∈ schema, f.MetBy members) : Accepts schema (.object members)

/-- The first thing that is wrong with a configuration. Null has the members of an empty object. -/
inductive Refuses (schema : Schema) : Value → SchemaError → Prop where
  | notAnObject {v : Value} (given : v ≠ .null) (other : ∀ members, v ≠ .object members) :
    Refuses schema v (.notAnObject v.typeName)
  | unknownField {members : Members} {name : String} (first : schema.FirstUnknown members name) :
    Refuses schema (.object members) (.unknownField name)
  | field {v : Value} {members : Members} {before after : List Field} {f : Field} {e : SchemaError}
    (shown : v = .object members ∨ v = .null ∧ members = []) (declared : ∀ name ∈ members.names, schema.Declares name)
    (split : schema = before ++ f :: after) (met : ∀ g ∈ before, g.MetBy members)
    (breaks : f.Breaks members e) : Refuses schema v e

variable {schema : Schema} {members : Members} {e : SchemaError}

/-- At most one name is the first that is not declared. -/
theorem FirstUnknown.unique {name other : String} (first : schema.FirstUnknown members name)
    (first' : schema.FirstUnknown members other) : name = other := by
  apply utf8Bytes_injective
  apply List.le_antisymm
  · exact first.least other first'.member first'.unknown
  · exact first'.least name first.member first.unknown

theorem find?_undeclared_eq_none_iff :
    (members.names.find? fun name => !schema.any (·.name == name)) = none ↔
      ∀ name ∈ members.names, schema.Declares name := by
  simp [Declares]

section

variable (ascending : members.names.Pairwise (· < ·))
include ascending

theorem firstUnknown_of_find? {name : String}
    (found : (members.names.find? fun name => !schema.any (·.name == name)) = some name) :
    schema.FirstUnknown members name := by
  obtain ⟨unknown, before, after, split, known⟩ := List.find?_eq_some_iff_append.mp found
  refine ⟨by simp [split], by simpa [Declares] using unknown, fun other member undeclared => ?_⟩
  rw [split, List.mem_append, List.mem_cons] at member
  rcases member with early | rfl | late
  · exact absurd (by simpa [Declares] using known other early) undeclared
  · exact List.le_refl _
  · -- The names of the members stand in ascending order.
    rw [split, List.pairwise_append, List.pairwise_cons] at ascending
    exact List.le_of_lt (utf8Bytes_lt (ascending.2.1.1 other late))

theorem find?_undeclared_eq_some_iff {name : String} :
    (members.names.find? fun name => !schema.any (·.name == name)) = some name ↔ schema.FirstUnknown members name := by
  refine ⟨firstUnknown_of_find? ascending, fun first => ?_⟩
  cases found : members.names.find? fun name => !schema.any (·.name == name) with
  | none => exact absurd (find?_undeclared_eq_none_iff.mp found name first.member) first.unknown
  | some other => rw [(firstUnknown_of_find? ascending found).unique first]

theorem membersViolation?_eq_none_iff :
    schema.membersViolation? members = none ↔
      (∀ name ∈ members.names, schema.Declares name) ∧ ∀ f ∈ schema, f.MetBy members := by
  simp only [← find?_undeclared_eq_none_iff, ← Field.violation?_eq_none_iff ascending]
  unfold membersViolation?
  cases members.names.find? fun name => !schema.any (·.name == name) with
  | none => simp
  | some name => simp

theorem membersViolation?_eq_some_iff :
    schema.membersViolation? members = some e ↔
      (∃ name, schema.FirstUnknown members name ∧ e = .unknownField name) ∨
      (∀ name ∈ members.names, schema.Declares name) ∧ ∃ before f after, schema = before ++ f :: after ∧
        f.Breaks members e ∧ ∀ g ∈ before, g.MetBy members := by
  simp only [← find?_undeclared_eq_none_iff, ← find?_undeclared_eq_some_iff ascending,
    ← Field.violation?_eq_none_iff ascending, ← Field.violation?_eq_some_iff ascending]
  unfold membersViolation?
  cases members.names.find? fun name => !schema.any (·.name == name) with
  | none => simp [List.findSome?_eq_some_iff]
  | some name => simp [eq_comm]

end

theorem validate_null : schema.validate .null = schema.validate (.object []) := rfl

theorem validate_object :
    schema.validate (.object members) = .ok () ↔ schema.membersViolation? members = none := by
  simp only [validate]
  cases schema.membersViolation? members <;> simp

theorem validate_object_error :
    schema.validate (.object members) = .error e ↔ schema.membersViolation? members = some e := by
  simp only [validate]
  cases schema.membersViolation? members <;> simp

theorem refuses_object :
    schema.Refuses (.object members) e ↔
      (∃ name, schema.FirstUnknown members name ∧ e = .unknownField name) ∨
      (∀ name ∈ members.names, schema.Declares name) ∧ ∃ before f after, schema = before ++ f :: after ∧
        f.Breaks members e ∧ ∀ g ∈ before, g.MetBy members := by
  constructor
  · rintro (⟨given, other⟩ | ⟨first⟩ | ⟨⟨⟨⟩⟩ | ⟨⟨⟩, -⟩, declared, split, met, breaks⟩)
    · exact absurd rfl (other members)
    · exact .inl ⟨_, first, rfl⟩
    · exact .inr ⟨declared, _, _, _, split, breaks, met⟩
  · rintro (⟨name, first, rfl⟩ | ⟨declared, before, f, after, split, breaks, met⟩)
    · exact .unknownField first
    · exact .field (.inl rfl) declared split met breaks

theorem refuses_null : schema.Refuses .null e ↔ schema.Refuses (.object []) e := by
  rw [refuses_object]
  constructor
  · rintro (⟨given, other⟩ | _ | ⟨⟨⟨⟩⟩ | ⟨-, rfl⟩, declared, split, met, breaks⟩)
    · exact absurd rfl given
    · exact .inr ⟨declared, _, _, _, split, breaks, met⟩
  · rintro (⟨name, first, rfl⟩ | ⟨declared, before, f, after, split, breaks, met⟩)
    · cases first.member
    · exact .field (.inr ⟨rfl, rfl⟩) declared split met breaks

theorem validate_eq_ok_iff {v : Value} (ascending : v.Ascending) : schema.validate v = .ok () ↔ schema.Accepts v := by
  cases v with
  | null =>
      rw [validate_null, validate_object, membersViolation?_eq_none_iff .nil]
      constructor
      · rintro ⟨-, met⟩
        refine .null fun f known required => ?_
        obtain ⟨v, member, -⟩ := (met f known).filled required
        cases member
      · rintro ⟨optional⟩
        exact ⟨nofun, fun f known => ⟨fun required => absurd required (optional f known), nofun⟩⟩
  | object members =>
      rw [validate_object, membersViolation?_eq_none_iff (ascending members rfl)]
      constructor
      · rintro ⟨declared, met⟩
        exact .object declared met
      · rintro ⟨⟩
        exact ⟨‹_›, ‹_›⟩
  | bool | number | string | array => exact iff_of_false nofun nofun

theorem validate_eq_error_iff {v : Value} (ascending : v.Ascending) :
    schema.validate v = .error e ↔ schema.Refuses v e := by
  cases v with
  | null =>
      rw [validate_null, validate_object_error, membersViolation?_eq_some_iff .nil, refuses_null, refuses_object]
  | object members =>
      rw [validate_object_error, membersViolation?_eq_some_iff (ascending members rfl), refuses_object]
  | bool | number | string | array =>
      constructor
      · rintro ⟨⟩
        exact .notAnObject nofun nofun
      · intro refused
        cases refused with
        | notAnObject => rfl
        | field shown => rcases shown with same | ⟨same, -⟩ <;> cases same

/-- A schema accepts what is as it wants it, and refuses all else for the first thing that is wrong. Null as a
value stands for optional fields of any kind only. -/
theorem validate_verdict {v : Value} (ascending : v.Ascending) :
    (schema.validate v = .ok () ↔ schema.Accepts v) ∧
      (∀ e, schema.validate v = .error e ↔ schema.Refuses v e) ∧
      ∀ members, v = .object members → schema.validate v = .ok () →
        ∀ f ∈ schema, (f.name, .null) ∈ members → f.kind = .any ∧ ¬f.isRequired := by
  refine ⟨validate_eq_ok_iff ascending, fun e => validate_eq_error_iff ascending, ?_⟩
  rintro members rfl valid f known member
  obtain ⟨-, met⟩ := (membersViolation?_eq_none_iff (ascending members rfl)).mp (validate_object.mp valid)
  refine ⟨FieldKind.covers_null_iff.mp ((met f known).covers _ member), fun required => ?_⟩
  obtain ⟨v, member', given⟩ := (met f known).filled required
  have same := Members.get?_of_mem (ascending members rfl) member
  rw [Members.get?_of_mem (ascending members rfl) member'] at same
  exact given (Option.some.inj same)

/-- A required address and a timeout with a default. -/
def endpointSchema : Schema :=
  [ { name := "rpc_addr", kind := .string, description := "RPC endpoint", presence := .required },
    { name := "timeout_secs", kind := .integer, description := "request timeout"
      presence := .optional (.ofUInt64 10) } ]

/-- A member that is not declared comes before a field of the wrong kind. -/
theorem validate_verdict_misspelt :
    let v : Value := .object [("rpc_addr", .bool true), ("rpc_adr", .string "y")]
    v.Ascending ∧ endpointSchema.validate v = .error (.unknownField "rpc_adr") ∧
      endpointSchema.Refuses v (.unknownField "rpc_adr") := by
  intro v
  have ascending : v.Ascending := by
    intro members same
    obtain rfl := Value.object.inj same
    decide
  have refused : endpointSchema.validate v = .error (.unknownField "rpc_adr") := rfl
  exact ⟨ascending, refused, ((validate_verdict ascending).2.1 _).mp refused⟩

end Schema

end ChainRelay
