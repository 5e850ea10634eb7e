import ChainRelay.Proofs.Config.Agreement

/-! # Defaults

A schema names a default for each field that may be left out, and the record that a factory reads has one as
well. They are the same: to write down the default of a field that was left out changes nothing, since its put
can be moved behind all others, and does nothing there.
-/

namespace ChainRelay

open Json (Value Members Reader Shape Slot)
open Json.Reader (gives_bind gives_pure)

namespace Json.Shape

variable {shape : Shape σ α} {room : Nat} {members more : Members} {record filled : σ}

/-- A slot takes the member, and what it puts makes no difference to the record. -/
inductive Idle (shape : Shape σ α) (room : Nat) (m : String × Value) : Prop where
  | of (slot : Slot σ) (put : σ → σ) (inside : slot ∈ shape.slots) (named : slot.name = m.1)
      (reads : (slot.read room).Reads m.2 put)
      (finish : ∀ record, slot.filled record = false → shape.finish (put record) = shape.finish record)
      (commutes : ∀ other ∈ shape.slots, other.name ≠ slot.name →
        (other.read room).Gives fun put' => ∀ record, put (put' record) = put' (put record))

/-- A put that commutes with those of the members can be made first. -/
theorem Fills.after_put (tidy : shape.Tidy room) {slot : Slot σ} (inside : slot ∈ shape.slots) {put : σ → σ} {v : Value}
    (reads : (slot.read room).Reads v put)
    (commutes : ∀ other ∈ shape.slots, other.name ≠ slot.name →
      (other.read room).Gives fun put' => ∀ record, put (put' record) = put' (put record))
    (absent : slot.name ∉ members.names) (fills : shape.Fills room record members filled) :
    shape.Fills room (put record) members (put filled) := by
  induction fills with
  | done => exact .done
  | @next record filled name v rest other put' declared free reads' more ih =>
      obtain ⟨inside', rfl⟩ := slot_of_find? declared
      obtain ⟨different, absent⟩ := not_or.mp (mt List.mem_cons.mpr absent)
      have apart : other.name ≠ slot.name := fun same => different same.symm
      refine .next declared ?_ reads' ?_
      · rw [reads.holds (tidy.marks slot inside) other inside', free]
        simpa using apart
      · rw [← reads'.holds (commutes other inside' apart)]
        exact ih absent

theorem free_after_put (tidy : shape.Tidy room) {slot : Slot σ} (inside : slot ∈ shape.slots) {put : σ → σ} {v : Value}
    (reads : (slot.read room).Reads v put)
    (free : ∀ other ∈ shape.slots, other.name ∈ slot.name :: more.names → other.filled record = false)
    (apart : slot.name ∉ more.names) :
    ∀ other ∈ shape.slots, other.name ∈ more.names → other.filled (put record) = false := by
  intro other inside' named
  have different : other.name ≠ slot.name := fun same => apart (same ▸ named)
  rw [reads.holds (tidy.marks slot inside) other inside', free other inside' (List.mem_cons_of_mem _ named)]
  simpa using different

/-- Idle members can be added anywhere. -/
theorem Fills.of_sublist (tidy : shape.Tidy room) (sub : List.Sublist members more) (distinct : more.names.Nodup)
    (idle : ∀ m ∈ more, m ∈ members ∨ m.1 ∉ members.names ∧ shape.Idle room m)
    (free : ∀ slot ∈ shape.slots, slot.name ∈ more.names → slot.filled record = false)
    (fills : shape.Fills room record members filled) :
    ∃ filled', shape.Fills room record more filled' ∧ shape.finish filled' = shape.finish filled := by
  induction sub generalizing record filled with
  | slnil => exact ⟨filled, fills, rfl⟩
  | @cons members more m sub ih =>
      obtain ⟨name, v⟩ := m
      obtain ⟨apart, distinct'⟩ := List.nodup_cons.mp distinct
      obtain ⟨here, others⟩ := List.forall_mem_cons.mp idle
      have fresh : name ∉ Members.names members := fun old => apart ((sub.map Prod.fst).subset old)
      obtain ⟨slot, put, inside, rfl, reads, finish, commutes⟩ :=
        (here.resolve_left fun old => fresh (List.mem_map_of_mem old)).2
      have empty : slot.filled record = false := free slot inside List.mem_cons_self
      obtain ⟨filled', fills', same⟩ := ih distinct' others (free_after_put tidy inside reads free apart)
        (fills.after_put tidy inside reads commutes fresh)
      refine ⟨filled', .next (find?_name tidy.distinct inside) empty reads fills', same.trans (finish filled ?_)⟩
      simpa [empty, fresh] using mt (fills.filled tidy inside).mp
  | @cons_cons members more m sub ih =>
      obtain ⟨apart, distinct'⟩ := List.nodup_cons.mp distinct
      obtain ⟨here, others⟩ := List.forall_mem_cons.mp idle
      cases fills with
      | @next _ _ name v _ slot put declared empty reads fills =>
          obtain ⟨inside, rfl⟩ := slot_of_find? declared
          have later : ∀ m ∈ more, m ∈ members ∨ m.1 ∉ Members.names members ∧ shape.Idle room m := by
            intro m member
            rcases others m member with old | ⟨fresh, idle⟩
            · refine .inl ((List.mem_cons.mp old).resolve_left ?_)
              rintro rfl
              exact apart (List.mem_map_of_mem member)
            · exact .inr ⟨fun old => fresh (List.mem_cons_of_mem _ old), idle⟩
          obtain ⟨filled', fills', same⟩ := ih distinct' later (free_after_put tidy inside reads free apart) fills
          exact ⟨filled', .next declared empty reads fills', same⟩

/-- With idle members an object is read as the same record. -/
theorem reads_of_sublist (tidy : shape.Tidy room) (sub : List.Sublist members more) (distinct : more.names.Nodup)
    (idle : ∀ m ∈ more, m ∈ members ∨ m.1 ∉ members.names ∧ shape.Idle room m) (takes : shape.Takes room members) :
    ∃ a, (shape.read (room + 1)).Reads (.object members) a ∧ (shape.read (room + 1)).Reads (.object more) a := by
  have each : ∀ m ∈ members, ∃ slot ∈ shape.slots, slot.name = m.1 ∧ slot.filled shape.empty = false ∧
      ∃ put, (slot.read room).Reads m.2 put := by
    intro m inside
    obtain ⟨slot, member, named, reads⟩ := takes.each m inside
    exact ⟨slot, member, named, tidy.free slot member, reads⟩
  obtain ⟨record, fills⟩ := exists_fills tidy (distinct.sublist (sub.map Prod.fst)) each
  obtain ⟨record', fills', same⟩ := fills.of_sublist tidy sub distinct idle fun slot member _ => tidy.free slot member
  have filled : ∀ slot ∈ shape.slots, slot.required → slot.filled record := by
    intro slot member required
    exact (fills.filled tidy member).mpr (.inr (takes.required slot member required))
  have filled' : ∀ slot ∈ shape.slots, slot.required → slot.filled record' := by
    intro slot member required
    exact (fills'.filled tidy member).mpr (.inr ((sub.map Prod.fst).subset (takes.required slot member required)))
  obtain ⟨a, finished⟩ := Option.isSome_iff_exists.mp (tidy.finishes record filled)
  exact ⟨a, read_reads fills (complete_eq_none.mpr filled) finished,
    read_reads fills' (complete_eq_none.mpr filled') (same.trans finished)⟩

end Json.Shape

theorem readConfig_of_reads {reader : Nat → Reader α} {v : Value} {a : α} (reads : (reader Json.depthLimit).Reads v a) :
    readConfig reader v = .ok a := by
  have read := Json.runReader_eq_ok_iff.mpr ⟨[], reads.run_compact⟩
  rw [readConfig, decodeConfig, read]

/-! ## Objects with some of the defaults -/

/-- The members of an object; null is read as the empty one. -/
def Json.Value.members : Value → Members
  | .object members => members
  | _ => []

/-- Some of the fields that were left out are there with their defaults, and nothing else is new. -/
structure Schema.Supplements (schema : Schema) (members more : Members) : Prop where
  ascending : more.names.Pairwise (· < ·)
  kept : List.Sublist members more
  added : ∀ m ∈ more, m ∈ members ∨ m.1 ∉ members.names ∧ ∃ f ∈ schema, f.name = m.1 ∧ f.default? = some m.2

/-- The default is of the kind of its field, and makes no difference to the record. -/
structure Field.Defaults (room : Nat) (shape : Shape σ α) (f : Field) : Prop where
  holds : ∀ v, f.default? = some v → f.kind.holds v = true
  idle : ∀ v, f.default? = some v → shape.Idle room (f.name, v)

section

variable {schema : Schema} {shape : Shape σ α} {unreadable : String → Value → Prop} {members more : Members} {a : α}

theorem Schema.Supplements.admits (supplements : schema.Supplements members more) (admits : schema.Admits members)
    (holds : ∀ f ∈ schema, ∀ v, f.default? = some v → f.kind.holds v = true) : schema.Admits more := by
  constructor
  · intro m member
    rcases supplements.added m member with old | ⟨_, f, known, named, default⟩
    · exact admits.each m old
    · exact ⟨f, known, named, holds f known m.2 default⟩
  · intro f known required
    exact (supplements.kept.map Prod.fst).subset (admits.required f known required)

/-- Defaults can be added to a valid object that is read. -/
theorem Schema.Supplements.keeps (tidy : shape.Tidy fieldRoom)
    (fields : List.Forall₂ (Field.StandsFor fieldRoom unreadable) schema shape.slots)
    (defaults : ∀ f ∈ schema, f.Defaults fieldRoom shape) (ordered : members.names.Pairwise (· < ·))
    (valid : schema.validate (.object members) = .ok ()) (read : readConfig shape.read (.object members) = .ok a)
    (supplements : schema.Supplements members more) :
    schema.validate (.object more) = .ok () ∧ readConfig shape.read (.object more) = .ok a := by
  have scalar : ∀ f ∈ schema, f.Scalar := by
    intro f known
    obtain ⟨slot, _, stands⟩ := forall₂_left fields f known
    exact stands.scalar
  have admits := Schema.admits_of_validate ordered valid
  have settles := Schema.settles_of_admits fields tidy.distinct admits
  have distinct := Members.nodup_names ordered
  -- What has been read shows that the record takes the members.
  have settled : (shape.read (fieldRoom + 1)).Settles (.object members) := Shape.read_settles tidy distinct settles
  have takes := (Shape.read_iff tidy distinct settles).mp ((readConfig_ok_iff settled).mp ⟨a, read⟩)
  have idle : ∀ m ∈ more, m ∈ members ∨ m.1 ∉ members.names ∧ shape.Idle fieldRoom m := by
    intro m member
    refine (supplements.added m member).imp_right fun ⟨fresh, f, known, named, default⟩ => ⟨fresh, ?_⟩
    have idle := (defaults f known).idle m.2 default
    rwa [named] at idle
  obtain ⟨b, reads, reads'⟩ := Shape.reads_of_sublist tidy supplements.kept
    (Members.nodup_names supplements.ascending) idle takes
  have same : b = a := Except.ok.inj ((readConfig_of_reads reads).symm.trans read)
  have names : schema.map (·.name) = shape.slots.map (·.name) := Field.map_name_eq fields
  refine ⟨?_, same ▸ readConfig_of_reads reads'⟩
  exact (supplements.admits admits fun f known => (defaults f known).holds).validate scalar (names ▸ tidy.distinct)
    supplements.ascending

end

namespace Field

variable {room : Nat} {shape : Shape σ α} {f : Field} {v : Value}

theorem defaults_required (required : f.presence = .required) : f.Defaults room shape := by
  have none : f.default? = none := by rw [default?, required]
  constructor
  · intro v default
    cases none.symm.trans default
  · intro v default
    cases none.symm.trans default

theorem defaults_optional {slot : Slot σ} {reader : Reader β} {b : β} {put : β → σ → σ}
    (optional : f.presence = .optional v) (holds : f.kind.holds v = true) (inside : slot ∈ shape.slots)
    (named : slot.name = f.name) (read : slot.read room = (do return put (← reader))) (reads : reader.Reads v b)
    (finish : ∀ record, slot.filled record = false → shape.finish (put b record) = shape.finish record)
    (commutes : ∀ other ∈ shape.slots, other.name ≠ slot.name →
      (other.read room).Gives fun put' => ∀ record, put b (put' record) = put' (put b record)) :
    f.Defaults room shape := by
  have only : f.default? = some v := by rw [default?, optional]
  constructor
  · intro w same
    cases only.symm.trans same
    exact holds
  · intro w same
    cases only.symm.trans same
    exact .of slot (put b) inside named (read ▸ reads.then_pure put) finish commutes

end Field

/-! ## The shipped modules -/

theorem Json.readUInt64_reads_self (n : UInt64) : Json.readUInt64.Reads (.ofUInt64 n) n := by
  have small := n.toNat_lt
  have reads := Json.readUInt64_reads (n := n.toNat) (by omega) (Int.natCast_nonneg _)
  rwa [Int.toNat_natCast, UInt64.ofNat_toNat] at reads

theorem Mock.defaults : ∀ f ∈ schema, f.Defaults fieldRoom Config.shape := by
  refine List.forall_mem_cons.mpr ⟨?_, List.forall_mem_singleton.mpr ?_⟩
  · refine Field.defaults_optional rfl rfl List.mem_cons_self rfl rfl (Json.readUInt64_reads_self 0) ?_ ?_
    · intro record empty
      simp at empty
      simp [Config.shape, empty]
    · intro other inside different
      simp only [Config.shape, List.mem_cons, List.not_mem_nil, or_false] at inside
      rcases inside with rfl | rfl
      · exact absurd rfl different
      · exact gives_bind fun _ => gives_pure fun _ => rfl
  · refine Field.defaults_optional rfl rfl (List.mem_cons_of_mem _ List.mem_cons_self) rfl rfl
      (Json.readText_reads Config.defaultMix) ?_ ?_
    · intro record empty
      simp at empty
      simp [Config.shape, empty]
    · intro other inside different
      simp only [Config.shape, List.mem_cons, List.not_mem_nil, or_false] at inside
      rcases inside with rfl | rfl
      · exact gives_bind fun _ => gives_pure fun _ => rfl
      · exact absurd rfl different

/-- The configuration for null is that of the empty object. -/
theorem Mock.read_empty : readConfig Config.shape.read (.object []) = .ok Config.default := by
  have reads : (Config.shape.read (fieldRoom + 1)).Reads (.object []) Config.default := Shape.read_reads .done rfl rfl
  exact readConfig_of_reads reads

theorem Hd.defaults : ∀ f ∈ schema, f.Defaults fieldRoom Config.shape := by
  refine List.forall_mem_cons.mpr ⟨Field.defaults_required rfl, List.forall_mem_singleton.mpr ?_⟩
  refine Field.defaults_optional rfl rfl (List.mem_cons_of_mem _ List.mem_cons_self) rfl rfl
    (Json.readText_reads defaultPath) ?_ ?_
  · intro record empty
    simp at empty
    simp [Config.shape, empty]
  · intro other inside different
    simp only [Config.shape, List.mem_cons, List.not_mem_nil, or_false] at inside
    rcases inside with rfl | rfl
    · exact gives_bind fun _ => gives_pure fun _ => rfl
    · exact absurd rfl different

theorem Ethereum.defaults : ∀ f ∈ schema, f.Defaults fieldRoom Config.shape := by
  have timeout : (Field.mk "timeout_secs" .integer "Per request timeout in seconds"
      (.optional (.ofUInt64 Config.defaultTimeout))).Defaults fieldRoom Config.shape := by
    refine Field.defaults_optional rfl rfl (List.mem_of_getElem? (i := 4) rfl) rfl rfl
      (Json.readUInt64_reads_self Config.defaultTimeout) ?_ ?_
    · intro record empty
      simp at empty
      simp [Config.shape, empty]
    · intro other inside different
      simp only [Config.shape, List.mem_cons, List.not_mem_nil, or_false] at inside
      rcases inside with rfl | rfl | rfl | rfl | rfl
      · exact gives_bind fun _ => gives_pure fun _ => rfl
      · exact gives_bind fun _ => gives_pure fun _ => rfl
      · exact gives_bind fun _ => gives_pure fun _ => rfl
      · exact gives_bind fun _ => gives_pure fun _ => rfl
      · exact absurd rfl different
  intro f known
  simp only [schema, List.mem_cons, List.not_mem_nil, or_false] at known
  rcases known with rfl | rfl | rfl | rfl | rfl
  · exact Field.defaults_required rfl
  · exact Field.defaults_required rfl
  · exact Field.defaults_required rfl
  · exact Field.defaults_required rfl
  · exact timeout

/-- Where the module accepts a configuration for the role and reads it, it does the same with any of the defaults
of its schema for fields that were left out. -/
def Module.KeepsDefaults (m : Module) (role : Role) (read : Value → Except Report α) (v : Value) : Prop :=
  ∀ schema a more, m.provider.schema role = .ok schema → schema.validate v = .ok () → read v = .ok a →
    schema.Supplements v.members more → schema.validate (.object more) = .ok () ∧ read (.object more) = .ok a

/-- The defaults of the schemas of the shipped modules are those that are read. -/
theorem defaults_hold {v : Value} (ascending : v.Ascending) :
    mockModule.KeepsDefaults .prover Mock.Config.ofValueOrNull v ∧
    ethereumModule.KeepsDefaults .chain Ethereum.Config.ofValue v ∧
    hdModule.KeepsDefaults .signer Hd.Config.ofValue v := by
  refine ⟨?_, ?_, ?_⟩
  · intro schema c more described valid read supplements
    cases described
    rcases object_of_validate valid with rfl | ⟨members, rfl⟩
    · cases read
      exact supplements.keeps Mock.Config.tidy (Mock.fields_standFor.imp fun _ _ stands => stands.1) Mock.defaults
        .nil rfl Mock.read_empty
    · exact supplements.keeps Mock.Config.tidy (Mock.fields_standFor.imp fun _ _ stands => stands.1) Mock.defaults
        (ascending members rfl) valid read
  · intro schema c more described valid read supplements
    cases described
    rcases object_of_validate valid with rfl | ⟨members, rfl⟩
    · cases valid
    · exact supplements.keeps Ethereum.Config.tidy Ethereum.fields_standFor Ethereum.defaults
        (ascending members rfl) valid read
  · intro schema c more described valid read supplements
    cases described
    rcases object_of_validate valid with rfl | ⟨members, rfl⟩
    · cases valid
    · exact supplements.keeps Hd.Config.tidy (Hd.fields_standFor.imp fun _ _ stands => stands.1) Hd.defaults
        (ascending members rfl) valid read

/-- A phrase is enough for a key. -/
theorem Hd.Config.ofValue_mnemonic (s : String) :
    ofValue (.object [("mnemonic", .string s)]) = .ok { mnemonic := s, path := defaultPath } := by
  have mnemonic := (Json.readText_reads s).then_pure fun s (d : Draft) => { d with mnemonic := some s }
  have reads : (shape.read (fieldRoom + 1)).Reads (.object [("mnemonic", .string s)])
      { mnemonic := s, path := defaultPath } := Shape.read_reads (.next rfl rfl mnemonic .done) rfl rfl
  exact readConfig_of_reads reads

/-- A phrase gets its path, and an empty configuration one of its two fields. -/
theorem defaults_hold_samples :
    Hd.Config.ofValue (.object [("mnemonic", .string "a"), ("path", .string Hd.defaultPath)]) =
        .ok { mnemonic := "a", path := Hd.defaultPath } ∧
      Mock.Config.ofValueOrNull (.object [("commitment_prefix", .string Mock.Config.defaultMix)]) =
        .ok Mock.Config.default := by
  constructor
  · have ascending : Value.Ascending (.object [("mnemonic", .string "a")]) := by
      rintro members ⟨⟩
      exact List.pairwise_singleton _ _
    have read := Hd.Config.ofValue_mnemonic "a"
    refine ((defaults_hold ascending).2.2 _ _ _ rfl rfl read ⟨by decide, .cons_cons _ (List.nil_sublist _), ?_⟩).2
    refine List.forall_mem_cons.mpr ⟨.inl List.mem_cons_self, List.forall_mem_singleton.mpr (.inr ⟨by decide, ?_⟩)⟩
    exact ⟨_, List.mem_cons_of_mem _ List.mem_cons_self, rfl, rfl⟩
  · have ascending : Value.Ascending .null := nofun
    refine ((defaults_hold ascending).1 _ _ _ rfl rfl rfl ⟨List.pairwise_singleton _ _, List.nil_sublist _, ?_⟩).2
    refine List.forall_mem_singleton.mpr (.inr ⟨nofun, ?_⟩)
    exact ⟨_, List.mem_cons_of_mem _ List.mem_cons_self, rfl, rfl⟩

end ChainRelay
