import ChainRelay.Proofs.Config.Roundtrip
import ChainRelay.Proofs.Config.Verdicts
import ChainRelay.Proofs.Registration
import ChainRelay.Shipped

/-! # Validated configurations

A schema whose fields are texts, whole numbers and truth values lets only flat objects through, and all
shipped modules have such schemas. So every configuration that the shipped modules accept is loaded as
it was saved.
-/

namespace ChainRelay

open Json (Value Members)

/-- The field is a text, a whole number or a truth value. -/
def Field.Scalar (f : Field) : Prop :=
  f.kind = .string ∨ f.kind = .integer ∨ f.kind = .boolean

theorem Field.Scalar.not_any {f : Field} (scalar : f.Scalar) : f.kind ≠ .any := by
  rcases scalar with kind | kind | kind <;> rw [kind] <;> nofun

theorem Field.Scalar.fits {f : Field} (scalar : f.Scalar) {v : Value} (covers : f.kind.Covers v) (room : Nat) :
    v.Fits room := by
  rcases scalar with kind | kind | kind <;> rw [kind] at covers <;> cases covers
  · exact .string
  · exact .int
  · exact .bool

namespace Schema

/-- A configuration of scalars is flat. -/
theorem fits_of_validate {schema : Schema} (scalar : ∀ f ∈ schema, f.Scalar) {v : Value}
    (valid : schema.validate v = .ok ()) (ascending : v.Ascending) (room : Nat) :
    v.Fits (room + 1) := by
  cases v with
  | null => exact .null
  | bool | number | string | array => cases valid
  | object members =>
      have ordered := ascending members rfl
      obtain ⟨declared, met⟩ := (membersViolation?_eq_none_iff ordered).mp (validate_object.mp valid)
      refine .object ordered fun m member => ?_
      obtain ⟨f, inside, same⟩ := declared m.1 (List.mem_map_of_mem member)
      exact (scalar f inside).fits ((met f inside).covers m.2 (same ▸ member)) room

end Schema

namespace Registry

/-- Whatever schema a module of the registry has for a role, it lists scalars only. -/
def Flat (r : Registry) : Prop :=
  ∀ p ∈ r.providers, ∀ role schema, p.schema role = .ok schema → ∀ f ∈ schema, f.Scalar

theorem schema_of_validate {r : Registry} {role : Role} {c : BackendConfig}
    (valid : r.validate role c = .ok ()) :
    ∃ p ∈ r.providers, ∃ schema, p.schema role = .ok schema ∧ schema.validate c.config = .ok () := by
  unfold validate at valid
  cases found : r.resolve role c.module with
  | error e => simp [found, bind, Except.bind] at valid
  | ok entry =>
      obtain ⟨n, p⟩ := entry
      cases described : p.schema role with
      | error e => simp [found, described, bind, Except.bind] at valid
      | ok schema =>
          refine ⟨p, mem_of_resolve found, schema, described, ?_⟩
          cases checked : schema.validate c.config with
          | ok => rfl
          | error e =>
              simp [found, described, checked, bind, Except.bind, throw, throwThe, MonadExceptOf.throw] at valid

/-- What a registry of flat schemas accepts fits. -/
theorem Flat.fits {r : Registry} (flat : r.Flat) {role : Role} {c : BackendConfig}
    (valid : r.validate role c = .ok ()) (ascending : c.config.Ascending) (room : Nat) :
    c.config.Fits (room + 1) := by
  obtain ⟨p, member, schema, described, checked⟩ := schema_of_validate valid
  exact Schema.fits_of_validate (flat p member role schema described) checked ascending room

theorem flat_of_shipped {r : Registry} (shipped : r.providers = shippedModules.map (·.provider)) :
    r.Flat := by
  intro p member role schema described
  rw [shipped] at member
  simp only [shippedModules, List.map_cons, List.map_nil, List.mem_cons, List.not_mem_nil, or_false] at member
  rcases member with rfl | rfl | rfl <;> cases role <;> cases described <;>
    simp [Ethereum.schema, Hd.schema, Mock.schema, Field.Scalar]

end Registry

end ChainRelay
