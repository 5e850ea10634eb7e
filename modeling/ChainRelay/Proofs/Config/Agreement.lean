import ChainRelay.Proofs.Config.Schemas
import ChainRelay.Proofs.Json.Deciding
import ChainRelay.Proofs.Wallet.AddressText
import Mathlib.Data.List.Forall2
import Mathlib.Data.List.Nodup

/-! # Schemas and the configurations that are read

A module describes its configuration twice: by a schema, and by the record that its factory reads. The two
agree field by field, so they agree on objects, apart from the values of single fields.
-/

namespace ChainRelay

open Json (Value Members Reader Shape Slot)
open Json.Reader (gives_bind gives_pure)

/-! ## What a schema admits -/

namespace Schema

/-- Each member is a field that holds its value, and no required field is left out. -/
structure Admits (schema : Schema) (members : Members) : Prop where
  each : ∀ m ∈ members, ∃ f ∈ schema, f.name = m.1 ∧ f.kind.holds m.2 = true
  required : ∀ f ∈ schema, f.isRequired → f.name ∈ members.names

theorem Admits.validate {schema : Schema} (scalar : ∀ f ∈ schema, f.Scalar)
    (distinct : (schema.map (·.name)).Nodup) {members : Members} (ascending : members.names.Pairwise (· < ·))
    (admits : schema.Admits members) : schema.validate (.object members) = .ok () := by
  have covers : ∀ f ∈ schema, ∀ v, (f.name, v) ∈ members → f.kind.Covers v := by
    intro f known v member
    obtain ⟨g, known', same, holds⟩ := admits.each _ member
    obtain rfl : g = f := List.inj_on_of_nodup_map distinct known' known same
    exact FieldKind.holds_iff.mp holds
  rw [validate_object, membersViolation?_eq_none_iff ascending]
  refine ⟨fun name inside => ?_, fun f known => ⟨fun required => ?_, covers f known⟩⟩
  · obtain ⟨m, member, rfl⟩ := List.mem_map.mp inside
    obtain ⟨f, known, same, -⟩ := admits.each m member
    exact ⟨f, known, same⟩
  · obtain ⟨⟨name, v⟩, member, rfl⟩ := List.mem_map.mp (admits.required f known required)
    refine ⟨v, member, ?_⟩
    rintro rfl
    exact (scalar f known).not_any (FieldKind.covers_null_iff.mp (covers f known .null member))

theorem admits_of_validate {schema : Schema} {members : Members} (ascending : members.names.Pairwise (· < ·))
    (valid : schema.validate (.object members) = .ok ()) : schema.Admits members := by
  obtain ⟨declared, met⟩ := (membersViolation?_eq_none_iff ascending).mp (validate_object.mp valid)
  constructor
  · intro m member
    obtain ⟨f, known, same⟩ := declared m.1 (List.mem_map_of_mem member)
    exact ⟨f, known, same, FieldKind.holds_iff.mpr ((met f known).covers m.2 (same ▸ member))⟩
  · intro f known required
    obtain ⟨v, member, -⟩ := (met f known).filled required
    exact List.mem_map_of_mem member

end Schema

/-! ## Fields and slots -/

/-- The slot stands for the field, and takes the values of its kind, but for some. -/
structure Field.StandsFor (room : Nat) (unreadable : String → Value → Prop) (f : Field) (slot : Slot σ) : Prop where
  scalar : f.Scalar
  name : f.name = slot.name
  required : f.isRequired = slot.required
  settles : ∀ v, f.kind.holds v = true → (slot.read room).Settles v
  takes : ∀ v, f.kind.holds v = true → ((∃ put, (slot.read room).Reads v put) ↔ ¬unreadable f.name v)

/-- The slot takes values of the kind of the field only. -/
structure Field.Bounds (room : Nat) (f : Field) (slot : Slot σ) : Prop where
  settles : ∀ v, (slot.read room).Settles v
  holds : ∀ v put, (slot.read room).Reads v put → f.kind.holds v = true

/-- The value is a negative whole number. -/
def Json.Value.Negative (v : Value) : Prop :=
  ∃ n fits, v = .number (.int n fits) ∧ n < 0

namespace Field

variable {room : Nat} {unreadable : String → Value → Prop} {f : Field} {slot : Slot σ}

theorem holds_string {v : Value} : FieldKind.string.holds v = true ↔ ∃ s, v = .string s := by
  cases v <;> simp [FieldKind.holds]

theorem holds_integer {v : Value} : FieldKind.integer.holds v = true ↔ ∃ n fits, v = .number (.int n fits) := by
  cases v with
  | number n =>
      cases n with
      | int n fits => simp [FieldKind.holds, fits]
      | float x => simp [FieldKind.holds]
  | null | bool | string | array | object => simp [FieldKind.holds]

theorem reads_uint_iff {v : Value} :
    (∃ n, Json.readUInt64.Reads v n) ↔ FieldKind.integer.holds v = true ∧ ¬v.Negative := by
  rw [holds_integer]
  constructor
  · intro ⟨m, reads⟩
    by_cases whole : v.NatBelow UInt64.size
    · obtain ⟨n, fits, rfl, least, -⟩ := whole
      refine ⟨⟨n, fits, rfl⟩, ?_⟩
      rintro ⟨n', fits', same, negative⟩
      cases same
      omega
    · exact absurd reads (Json.readUInt64_refuses whole).not_reads
  · rintro ⟨⟨n, fits, rfl⟩, least⟩
    refine ⟨_, Json.readUInt64_reads fits ?_⟩
    apply Int.not_lt.mp
    exact fun negative => least ⟨n, fits, rfl, negative⟩

variable (name : f.name = slot.name) (required : f.isRequired = slot.required)
include name required

theorem standsFor_text {put : String → σ → σ} (kind : f.kind = .string)
    (read : slot.read room = (do return put (← Json.readText))) (never : ∀ v, ¬unreadable f.name v) :
    f.StandsFor room unreadable slot ∧ f.Bounds room slot := by
  have settles (v : Value) : (slot.read room).Settles v := read ▸ (Json.readText_settles v).then_pure put
  have takes (v : Value) : (∃ put, (slot.read room).Reads v put) ↔ ∃ s, v = .string s := by
    rw [read, (Json.readText_settles v).then_pure_iff, Json.reads_text_iff]
  refine ⟨⟨.inl kind, name, required, fun v _ => settles v, fun v holds => ?_⟩, settles, fun v put reads => ?_⟩
  · rw [kind, holds_string] at holds
    exact iff_of_true ((takes v).mpr holds) (never v)
  · rw [kind, holds_string]
    exact (takes v).mp ⟨put, reads⟩

theorem standsFor_uint {put : UInt64 → σ → σ} (kind : f.kind = .integer)
    (read : slot.read room = (do return put (← Json.readUInt64))) (negative : ∀ v, unreadable f.name v ↔ v.Negative) :
    f.StandsFor room unreadable slot ∧ f.Bounds room slot := by
  have settles (v : Value) : (slot.read room).Settles v := read ▸ (Json.readUInt64_settles v).then_pure put
  have takes (v : Value) : (∃ put, (slot.read room).Reads v put) ↔ f.kind.holds v = true ∧ ¬v.Negative := by
    rw [read, (Json.readUInt64_settles v).then_pure_iff, reads_uint_iff, kind]
  refine ⟨⟨.inr (.inl kind), name, required, fun v _ => settles v, fun v holds => ?_⟩, settles, fun v put reads => ?_⟩
  · rw [takes v, negative v]
    exact and_iff_right holds
  · exact ((takes v).mp ⟨put, reads⟩).1

theorem standsFor_address {put : Address → σ → σ} (kind : f.kind = .string)
    (read : slot.read room = (do return put (← Address.read room)))
    (other : ∀ s, unreadable f.name (.string s) ↔ ¬Address.Writes s) : f.StandsFor room unreadable slot := by
  refine ⟨.inl kind, name, required, fun v holds => ?_, fun v holds => ?_⟩ <;> rw [kind, holds_string] at holds <;>
    obtain ⟨s, rfl⟩ := holds
  · exact read ▸ (Address.read_settles room s).then_pure put
  · rw [read, (Address.read_settles room s).then_pure_iff, Address.read_iff, other, not_not]

end Field

/-! ## Whole objects -/

theorem forall₂_left {R : α → β → Prop} {as : List α} {bs : List β} (related : List.Forall₂ R as bs) :
    ∀ a ∈ as, ∃ b ∈ bs, R a b := by
  induction related with
  | nil => exact nofun
  | cons here _ ih =>
      refine List.forall_mem_cons.mpr ⟨⟨_, List.mem_cons_self, here⟩, fun a member => ?_⟩
      obtain ⟨b, inside, related⟩ := ih a member
      exact ⟨b, List.mem_cons_of_mem _ inside, related⟩

theorem forall₂_right {R : α → β → Prop} {as : List α} {bs : List β} (related : List.Forall₂ R as bs) :
    ∀ b ∈ bs, ∃ a ∈ as, R a b :=
  forall₂_left related.flip

theorem Field.map_name_eq {room : Nat} {unreadable : String → Value → Prop} {fields : List Field}
    {slots : List (Slot σ)} (related : List.Forall₂ (Field.StandsFor room unreadable) fields slots) :
    fields.map (·.name) = slots.map (·.name) := by
  induction related with
  | nil => rfl
  | cons stands _ ih => simp only [List.map_cons, stands.name, ih]

/-- A member of the object is one of those. -/
def Json.Value.Has (v : Value) (which : String → Value → Prop) : Prop :=
  ∃ members, v = .object members ∧ ∃ m ∈ members, which m.1 m.2

theorem readConfig_ok_iff {reader : Nat → Reader α} {v : Value} (settles : (reader Json.depthLimit).Settles v) :
    (∃ a, readConfig reader v = .ok a) ↔ ∃ a, (reader Json.depthLimit).Reads v a := by
  have same : (∃ a, readConfig reader v = .ok a) ↔
      ∃ a rest, reader Json.depthLimit (utf8Bytes v.compact) = .ok (a, rest) := by
    unfold readConfig decodeConfig
    simp only [← Json.runReader_eq_ok_iff]
    cases Json.runReader (reader Json.depthLimit) (utf8Bytes v.compact) <;> simp
  rw [same]
  constructor
  · intro ⟨a, rest, read⟩
    rcases settles with taken | refuses
    · exact taken
    · exact absurd read (refuses.run_compact _)
  · intro ⟨a, reads⟩
    exact ⟨a, [], reads.run_compact⟩

namespace Schema

variable {schema : Schema} {shape : Shape σ α} {room : Nat} {unreadable : String → Value → Prop} {members : Members}

theorem settles_of_admits (fields : List.Forall₂ (Field.StandsFor room unreadable) schema shape.slots)
    (distinct : (shape.slots.map (·.name)).Nodup) (admits : schema.Admits members) :
    shape.Settles room members := by
  intro m member slot inside same
  obtain ⟨f, known, named, holds⟩ := admits.each m member
  obtain ⟨slot', inside', stands⟩ := forall₂_left fields f known
  have one : slot = slot' := List.inj_on_of_nodup_map distinct inside inside' (by rw [same, ← named, stands.name])
  exact one ▸ stands.settles m.2 holds

theorem takes_iff_of_admits (fields : List.Forall₂ (Field.StandsFor room unreadable) schema shape.slots)
    (distinct : (shape.slots.map (·.name)).Nodup) (admits : schema.Admits members) :
    shape.Takes room members ↔ ∀ m ∈ members, ¬unreadable m.1 m.2 := by
  constructor
  · intro takes m member
    obtain ⟨f, known, named, holds⟩ := admits.each m member
    obtain ⟨slot', inside', stands⟩ := forall₂_left fields f known
    obtain ⟨slot, inside, same, reads⟩ := takes.each m member
    have one : slot = slot' := List.inj_on_of_nodup_map distinct inside inside' (by rw [same, ← named, stands.name])
    rw [← named]
    exact (stands.takes m.2 holds).mp (one ▸ reads)
  · intro good
    constructor
    · intro m member
      obtain ⟨f, known, named, holds⟩ := admits.each m member
      obtain ⟨slot, inside, stands⟩ := forall₂_left fields f known
      refine ⟨slot, inside, stands.name ▸ named, (stands.takes m.2 holds).mpr ?_⟩
      rw [named]
      exact good m member
    · intro slot inside required
      obtain ⟨f, known, stands⟩ := forall₂_right fields slot inside
      rw [← stands.name]
      exact admits.required f known (stands.required ▸ required)

theorem admits_of_takes
    (fields : List.Forall₂ (fun f slot => f.StandsFor room unreadable slot ∧ f.Bounds room slot) schema shape.slots)
    (takes : shape.Takes room members) : schema.Admits members := by
  constructor
  · intro m member
    obtain ⟨slot, inside, same, put, reads⟩ := takes.each m member
    obtain ⟨f, known, stands, bounds⟩ := forall₂_right fields slot inside
    exact ⟨f, known, stands.name.trans same, bounds.holds m.2 put reads⟩
  · intro f known required
    obtain ⟨slot, inside, stands, _⟩ := forall₂_left fields f known
    rw [stands.name]
    exact takes.required slot inside (stands.required ▸ required)

end Schema

/-- How many containers the value of a field may open inside each other. -/
def fieldRoom : Nat := Json.depthLimit - 1

section

variable {schema : Schema} {shape : Shape σ α} {unreadable : String → Value → Prop} {v : Value}

theorem object_of_validate (valid : schema.validate v = .ok ()) : v = .null ∨ ∃ members, v = .object members := by
  cases v with
  | null => exact .inl rfl
  | object members => exact .inr ⟨members, rfl⟩
  | bool | number | string | array => cases valid

/-- A valid object is read, apart from values that the record has no place for. -/
theorem readConfig_ok_iff_of_valid (tidy : shape.Tidy fieldRoom)
    (fields : List.Forall₂ (Field.StandsFor fieldRoom unreadable) schema shape.slots) (ascending : v.Ascending)
    (object : ∃ members, v = .object members) (valid : schema.validate v = .ok ()) :
    (∃ a, readConfig shape.read v = .ok a) ↔ ¬v.Has unreadable := by
  obtain ⟨members, rfl⟩ := object
  have ordered := ascending members rfl
  have admits := Schema.admits_of_validate ordered valid
  have settles := Schema.settles_of_admits fields tidy.distinct admits
  have distinct := Members.nodup_names ordered
  have settled : (shape.read (fieldRoom + 1)).Settles (.object members) := Shape.read_settles tidy distinct settles
  have taken : (∃ a, (shape.read (fieldRoom + 1)).Reads (.object members) a) ↔ ∀ m ∈ members, ¬unreadable m.1 m.2 := by
    rw [Shape.read_iff tidy distinct settles, Schema.takes_iff_of_admits fields tidy.distinct admits]
  refine (readConfig_ok_iff settled).trans (taken.trans ?_)
  simp [Json.Value.Has]

/-- An object that is read is valid. -/
theorem validate_of_readConfig (tidy : shape.Tidy fieldRoom)
    (fields : List.Forall₂ (fun f slot => f.StandsFor fieldRoom unreadable slot ∧ f.Bounds fieldRoom slot) schema
      shape.slots) (ascending : v.Ascending) (object : ∃ members, v = .object members)
    (read : ∃ a, readConfig shape.read v = .ok a) : schema.validate v = .ok () := by
  obtain ⟨members, rfl⟩ := object
  have ordered := ascending members rfl
  have settles : shape.Settles fieldRoom members := by
    intro m _ slot inside _
    obtain ⟨f, _, _, bounds⟩ := forall₂_right fields slot inside
    exact bounds.settles m.2
  have scalar : ∀ f ∈ schema, f.Scalar := by
    intro f known
    obtain ⟨slot, _, stands, _⟩ := forall₂_left fields f known
    exact stands.scalar
  have distinct := Members.nodup_names ordered
  have settled : (shape.read (fieldRoom + 1)).Settles (.object members) := Shape.read_settles tidy distinct settles
  have taken : ∃ a, (shape.read (fieldRoom + 1)).Reads (.object members) a := (readConfig_ok_iff settled).mp read
  have takes := (Shape.read_iff tidy distinct settles).mp taken
  have names : schema.map (·.name) = shape.slots.map (·.name) :=
    Field.map_name_eq (fields.imp fun _ _ stands => stands.1)
  exact (Schema.admits_of_takes fields takes).validate scalar (names ▸ tidy.distinct) ordered

end

/-! ## The shipped modules -/

/-- The module has a schema for the role, which the configuration satisfies. -/
def Module.Accepts (m : Module) (role : Role) (v : Value) : Prop :=
  ∃ schema, m.provider.schema role = .ok schema ∧ schema.validate v = .ok ()

namespace Mock

/-- A delay cannot be negative. -/
def Unreadable (name : String) (v : Value) : Prop :=
  name = "finality_delay" ∧ v.Negative

theorem Config.tidy : Config.shape.Tidy fieldRoom where
  strict := rfl
  distinct := by decide
  free := by simp [Config.shape]
  marks := by
    intro slot member
    simp only [Config.shape, List.mem_cons, List.not_mem_nil, or_false] at member ⊢
    rcases member with rfl | rfl <;>
      exact gives_bind fun _ => gives_pure (by rintro other (rfl | rfl) record <;> simp)
  finishes := fun record filled => rfl

theorem fields_standFor : List.Forall₂ (fun f slot => f.StandsFor fieldRoom Unreadable slot ∧ f.Bounds fieldRoom slot)
    schema Config.shape.slots :=
  .cons (Field.standsFor_uint rfl rfl rfl rfl fun v => by simp [Unreadable])
    (.cons (Field.standsFor_text rfl rfl rfl rfl fun v => by simp [Unreadable]) .nil)

end Mock

namespace Hd

theorem Config.tidy : Config.shape.Tidy fieldRoom where
  strict := rfl
  distinct := by decide
  free := by simp [Config.shape]
  marks := by
    intro slot member
    simp only [Config.shape, List.mem_cons, List.not_mem_nil, or_false] at member ⊢
    rcases member with rfl | rfl <;>
      exact gives_bind fun _ => gives_pure (by rintro other (rfl | rfl) record <;> simp)
  finishes := by
    intro record filled
    have phrase := filled _ (List.mem_cons_self) rfl
    obtain ⟨s, read⟩ := Option.isSome_iff_exists.mp phrase
    simp [Config.shape, read]

theorem fields_standFor :
    List.Forall₂ (fun f slot => f.StandsFor fieldRoom (fun _ _ => False) slot ∧ f.Bounds fieldRoom slot)
      schema Config.shape.slots :=
  .cons (Field.standsFor_text rfl rfl rfl rfl fun _ => id)
    (.cons (Field.standsFor_text rfl rfl rfl rfl fun _ => id) .nil)

end Hd

namespace Ethereum

/-- Numbers cannot be negative, and the text of the contract has to be an address. -/
def Unreadable (name : String) (v : Value) : Prop :=
  (name = "eth_chain_id" ∨ name = "timeout_secs") ∧ v.Negative ∨
    name = "ibc_address" ∧ ∃ s, v = .string s ∧ ¬Address.Writes s

theorem Config.tidy : Config.shape.Tidy fieldRoom where
  strict := rfl
  distinct := by decide
  free := by simp [Config.shape]
  marks := by
    intro slot member
    simp only [Config.shape, List.mem_cons, List.not_mem_nil, or_false] at member ⊢
    rcases member with rfl | rfl | rfl | rfl | rfl <;>
      exact gives_bind fun _ => gives_pure (by rintro other (rfl | rfl | rfl | rfl | rfl) record <;> simp)
  finishes := by
    intro record filled
    simp only [Config.shape, List.forall_mem_cons, forall_const, Option.isSome_iff_exists] at filled
    obtain ⟨⟨chain, named⟩, ⟨number, numbered⟩, ⟨node, served⟩, ⟨contract, routed⟩, _⟩ := filled
    simp [Config.shape, named, numbered, served, routed]

theorem fields_standFor : List.Forall₂ (Field.StandsFor fieldRoom Unreadable) schema Config.shape.slots :=
  .cons (Field.standsFor_text rfl rfl rfl rfl fun v => by simp [Unreadable]).1
    (.cons (Field.standsFor_uint rfl rfl rfl rfl fun v => by simp [Unreadable]).1
      (.cons (Field.standsFor_text rfl rfl rfl rfl fun v => by simp [Unreadable]).1
        (.cons (Field.standsFor_address rfl rfl rfl rfl fun s => by simp [Unreadable])
          (.cons (Field.standsFor_uint rfl rfl rfl rfl fun v => by simp [Unreadable]).1 .nil))))

end Ethereum

/-- The schemas of the shipped modules let through what their factories read, apart from negative numbers and
texts that are no addresses. What the factories for provers and signers read, the schemas let through. -/
theorem accepts_iff_reads {v : Value} (ascending : v.Ascending) :
    (mockModule.Accepts .prover v → ((∃ c, Mock.Config.ofValueOrNull v = .ok c) ↔ ¬v.Has Mock.Unreadable)) ∧
    (ethereumModule.Accepts .chain v → ((∃ c, Ethereum.Config.ofValue v = .ok c) ↔ ¬v.Has Ethereum.Unreadable)) ∧
    (hdModule.Accepts .signer v → ∃ c, Hd.Config.ofValue v = .ok c) ∧
    ((v = .null ∨ ∃ members, v = .object members) →
      ((∃ c, Mock.Config.ofValueOrNull v = .ok c) → mockModule.Accepts .prover v) ∧
      ((∃ c, Hd.Config.ofValue v = .ok c) → hdModule.Accepts .signer v)) := by
  refine ⟨?_, ?_, ?_, ?_⟩
  · rintro ⟨schema, described, valid⟩
    cases described
    rcases object_of_validate valid with rfl | ⟨members, rfl⟩
    · exact iff_of_true ⟨_, rfl⟩ (by simp [Json.Value.Has])
    · exact readConfig_ok_iff_of_valid Mock.Config.tidy (Mock.fields_standFor.imp fun _ _ stands => stands.1)
        ascending ⟨members, rfl⟩ valid
  · rintro ⟨schema, described, valid⟩
    cases described
    rcases object_of_validate valid with rfl | object
    · cases valid
    · exact readConfig_ok_iff_of_valid Ethereum.Config.tidy Ethereum.fields_standFor ascending object valid
  · rintro ⟨schema, described, valid⟩
    cases described
    rcases object_of_validate valid with rfl | object
    · cases valid
    · apply (readConfig_ok_iff_of_valid Hd.Config.tidy (Hd.fields_standFor.imp fun _ _ stands => stands.1)
        ascending object valid).mpr
      simp [Json.Value.Has]
  · intro shaped
    constructor
    · intro read
      refine ⟨_, rfl, ?_⟩
      rcases shaped with rfl | ⟨members, rfl⟩
      · rfl
      · exact validate_of_readConfig Mock.Config.tidy Mock.fields_standFor ascending ⟨members, rfl⟩ read
    · intro read
      refine ⟨_, rfl, ?_⟩
      rcases shaped with rfl | object
      · rw [Hd.Config.ofValue, readConfig_ok_iff (.inr Shape.read_refuses_null)] at read
        exact absurd read.choose_spec Shape.read_refuses_null.not_reads
      · exact validate_of_readConfig Hd.Config.tidy Hd.fields_standFor ascending object read

/-- A chain whose contract has the address. -/
def chainValue (contract : String) : Value :=
  .object
    [ ("chain_id", .string "a"), ("eth_chain_id", .number (.int 1 (by decide))), ("ibc_address", .string contract),
      ("rpc_addr", .string "http://localhost") ]

theorem chainValue_ascending (contract : String) : (chainValue contract).Ascending := by
  intro members same
  cases same
  simp only [Members.names, List.map_cons, List.map_nil]
  decide

theorem readable_chainValue {contract : String} (writes : Address.Writes contract) :
    ¬(chainValue contract).Has Ethereum.Unreadable := by
  rintro ⟨members, same, m, member, wrong⟩
  cases same
  simp only [List.mem_cons, List.not_mem_nil, or_false] at member
  rcases member with rfl | rfl | rfl | rfl <;> simp [Ethereum.Unreadable, Json.Value.Negative, writes] at wrong

/-- The digits of an address. -/
def contractDigits : String :=
  "a46dea1ff8c8b0c90dd11e2acf65e4ca29c3c02b"

theorem writes_contract {mark : String} (marked : mark ∈ Address.marks) : Address.Writes (mark ++ contractDigits) :=
  ⟨mark, marked, contractDigits.toList, by rw [String.ofList_toList], rfl, List.all_eq_true.mp rfl⟩

/-- A delay below zero and a short address get past the schemas, but are not read. -/
theorem accepts_iff_reads_samples :
    let early : Value := .object [("finality_delay", .number (.int (-1) (by decide)))]
    mockModule.Accepts .prover early ∧ (¬∃ c, Mock.Config.ofValueOrNull early = .ok c) ∧
    ethereumModule.Accepts .chain (chainValue "0x12") ∧ (¬∃ c, Ethereum.Config.ofValue (chainValue "0x12") = .ok c) ∧
    (∃ c, Ethereum.Config.ofValue (chainValue "0xa46dea1ff8c8b0c90dd11e2acf65e4ca29c3c02b") = .ok c) ∧
    ∃ c, Hd.Config.ofValue (.object [("mnemonic", .string "")]) = .ok c := by
  intro early
  have one (m : String × Value) : Value.Ascending (.object [m]) := by
    intro members same
    cases same
    exact List.pairwise_singleton _ _
  refine ⟨⟨_, rfl, rfl⟩, ?_, ⟨_, rfl, rfl⟩, ?_, ?_, ?_⟩
  · rw [(accepts_iff_reads (one _)).1 ⟨_, rfl, rfl⟩, not_not]
    exact ⟨_, rfl, _, List.mem_singleton_self _, rfl, -1, by decide, rfl, by decide⟩
  · rw [(accepts_iff_reads (chainValue_ascending _)).2.1 ⟨_, rfl, rfl⟩, not_not]
    refine ⟨_, rfl, ("ibc_address", .string "0x12"), by simp, .inr ⟨rfl, _, rfl, ?_⟩⟩
    rw [← Address.ofText_ok_iff_writes]
    rintro ⟨a, read⟩
    cases read
  · rw [(accepts_iff_reads (chainValue_ascending _)).2.1 ⟨_, rfl, rfl⟩]
    exact readable_chainValue (writes_contract (List.mem_cons_of_mem "" List.mem_cons_self))
  · exact (accepts_iff_reads (one _)).2.2.1 ⟨_, rfl, rfl⟩

/-- The schema accepts a contract behind a mark with a capital letter, which is neither bare nor behind `0x`, and it
is read. -/
theorem accepts_capital_mark :
    let value := chainValue ("0X" ++ contractDigits)
    ethereumModule.Accepts .chain value ∧ ¬Address.WritesBehind ["", "0x"] ("0X" ++ contractDigits) ∧
      ∃ c, Ethereum.Config.ofValue value = .ok c := by
  intro value
  have valid : Schema.validate Ethereum.schema value = .ok () := rfl
  refine ⟨⟨_, rfl, valid⟩, ?_, ?_⟩
  · rintro ⟨mark, marked, digits, same, -, each⟩
    simp only [List.mem_cons, List.not_mem_nil, or_false] at marked
    have chars : '0' :: 'X' :: contractDigits.toList = mark.toList ++ digits := by
      rw [← String.toList_ofList (l := digits), ← String.toList_append, ← same, String.toList_append]
      rfl
    rcases marked with rfl | rfl
    · -- Bare, the letter of the mark would be a digit.
      have letter : 'X' ∈ digits := by
        rw [String.toList_empty, List.nil_append] at chars
        simp [← chars]
      exact absurd (each 'X' letter) (by decide)
    · exact absurd (congrArg (fun cs => cs[1]?) chars) (by simp)
  · exact (readConfig_ok_iff_of_valid Ethereum.Config.tidy Ethereum.fields_standFor (chainValue_ascending _)
      ⟨_, rfl⟩ valid).mpr (readable_chainValue (writes_contract (by decide)))

end ChainRelay
