import ChainRelay.Proofs.Composition

/-! # The order of registration

Which modules can be registered together does not depend on their order, and neither does the module that is
found under a role and an id. The order decides who is refused: the first module that would share a role and
its id with a module before it.
-/

namespace ChainRelay

theorem Role.place_injective {role other : Role} (same : role.place = other.place) : role = other := by
  revert same
  cases role <;> cases other <;> decide

namespace Registry

/-- The role is one under which a module before it has the id of the module. -/
def Contested (before : List Provider) (p : Provider) (role : Role) : Prop :=
  role ∈ p.roles ∧ ∃ q ∈ before, q.id = p.id ∧ role ∈ q.roles

/-- The least role that the module would share with a module before it. -/
def LeastContested (before : List Provider) (p : Provider) (role : Role) : Prop :=
  Contested before p role ∧ ∀ other, Contested before p other → role.place ≤ other.place

theorem LeastContested.unique {before : List Provider} {p : Provider} {role other : Role}
    (least : LeastContested before p role) (least' : LeastContested before p other) : role = other :=
  Role.place_injective (Nat.le_antisymm (least.2 other least'.1) (least'.2 role least.1))

theorem register_eq_error_iff {r : Registry} (indexed : r.Indexed) {p : Provider} {e : Error} :
    r.register p = .error e ↔ ∃ role, LeastContested r.providers p role ∧ e = .collision (.backend role p.id) := by
  have named {e : Error} (refused : r.register p = .error e) :
      ∃ role, LeastContested r.providers p role ∧ e = .collision (.backend role p.id) := by
    obtain ⟨role, declared, held, named, least⟩ := register_error refused
    simp only [position?_isSome_iff indexed] at held least
    exact ⟨role, ⟨⟨declared, held⟩, fun other contested => least other contested.1 contested.2⟩, named⟩
  constructor
  · exact named
  · intro ⟨role, least, same⟩
    cases result : r.register p with
    | ok r' =>
        obtain ⟨declared, held⟩ := least.1
        have free := register_ok_iff.mp ⟨r', result⟩ role declared
        simp [← position?_isSome_iff indexed, free] at held
    | error e' =>
        obtain ⟨role', least', named⟩ := named result
        rw [named, same, least.unique least']

theorem registerAll_append {r r' : Registry} {before : List Provider} (done : r.registerAll before = .ok r')
    (rest : List Provider) : r.registerAll (before ++ rest) = r'.registerAll rest := by
  induction before generalizing r with
  | nil =>
      cases done
      rfl
  | cons p before ih =>
      cases result : r.register p with
      | error e => simp [registerAll, result] at done
      | ok middle =>
          simp only [registerAll, result] at done
          simpa only [List.cons_append, registerAll, result] using ih done

/-- Registering modules fails where the first of them is refused. -/
theorem registerAll_eq_error_iff {r : Registry} {ps : List Provider} {e : Error} :
    r.registerAll ps = .error e ↔
      ∃ before p after r', ps = before ++ p :: after ∧ r.registerAll before = .ok r' ∧ r'.register p = .error e := by
  constructor
  · intro refused
    induction ps generalizing r with
    | nil => cases refused
    | cons p rest ih =>
        cases result : r.register p with
        | error e' =>
            simp only [registerAll, result] at refused
            cases refused
            exact ⟨[], p, rest, r, rfl, rfl, result⟩
        | ok middle =>
            simp only [registerAll, result] at refused
            obtain ⟨before, q, after, r', rfl, done, last⟩ := ih refused
            exact ⟨p :: before, q, after, r', rfl, by simpa only [registerAll, result] using done, last⟩
  · rintro ⟨before, p, after, r', split, done, refused⟩
    rw [split, registerAll_append done, registerAll, refused]

theorem ofProviders_ok_iff {ps : List Provider} :
    (∃ r, ofProviders ps = .ok r) ↔ ps.Pairwise Provider.Compatible := by
  have free : ∀ p ∈ empty.providers, ∀ q ∈ ps, p.Compatible q := by simp [empty]
  exact (registerAll_ok_iff indexed_empty).trans (and_iff_left free)

theorem ofProviders_indexed {ps : List Provider} {r : Registry} (done : ofProviders ps = .ok r) :
    r.Indexed ∧ r.providers = ps := by
  obtain ⟨rfl, held⟩ := registerAll_eq_ok done
  exact ⟨indexed_attempts ps indexed_empty, by simpa [empty] using held⟩

/-- The first module that conflicts with a module before it, and the least role that they would share. -/
def FirstRefused (ps : List Provider) (p : Provider) (role : Role) : Prop :=
  ∃ before after, ps = before ++ p :: after ∧ before.Pairwise Provider.Compatible ∧ LeastContested before p role

theorem ofProviders_eq_error_iff {ps : List Provider} {e : Error} :
    ofProviders ps = .error e ↔ ∃ p role, FirstRefused ps p role ∧ e = .collision (.backend role p.id) := by
  rw [ofProviders, registerAll_eq_error_iff]
  constructor
  · rintro ⟨before, p, after, r, split, done, refused⟩
    obtain ⟨indexed, held⟩ := ofProviders_indexed done
    obtain ⟨role, least, named⟩ := (register_eq_error_iff indexed).mp refused
    exact ⟨p, role, ⟨before, after, split, ofProviders_ok_iff.mp ⟨r, done⟩, held ▸ least⟩, named⟩
  · rintro ⟨p, role, ⟨before, after, split, apart, least⟩, named⟩
    obtain ⟨r, done⟩ := ofProviders_ok_iff.mpr apart
    obtain ⟨indexed, held⟩ := ofProviders_indexed done
    exact ⟨before, p, after, r, split, done, (register_eq_error_iff indexed).mpr ⟨role, held ▸ least, named⟩⟩

theorem Contested.symm {p q : Provider} {role : Role} (contested : Contested [p] q role) :
    Contested [q] p role ∧ p.id = q.id := by
  simp only [Contested, List.mem_singleton, exists_eq_left] at contested ⊢
  grind

/-- The first of two modules cannot be the one that is refused. -/
theorem firstRefused_pair {p q x : Provider} {role : Role} :
    FirstRefused [p, q] x role ↔ x = q ∧ LeastContested [p] q role := by
  constructor
  · intro ⟨before, after, split, _, least⟩
    rcases before with _ | ⟨first, _ | ⟨second, more⟩⟩
    · simp [LeastContested, Contested] at least
    · simp only [List.cons_append, List.nil_append, List.cons.injEq] at split
      obtain ⟨rfl, rfl, -⟩ := split
      exact ⟨rfl, least⟩
    · simp at split
  · intro ⟨same, least⟩
    subst same
    exact ⟨[p], [], rfl, by simp, least⟩

/-- The module that is found under a role and an id. -/
def module? (r : Registry) (role : Role) (id : String) : Option Provider :=
  (r.resolve role id).toOption.map (·.2)

theorem module?_eq_some_iff {r : Registry} (indexed : r.Indexed) {role : Role} {id : String} {p : Provider} :
    r.module? role id = some p ↔ p ∈ r.providers ∧ p.id = id ∧ role ∈ p.roles := by
  simp only [module?, Option.map_eq_some_iff, Args.toOption_eq_some_iff, Prod.exists, exists_eq_right,
    resolve_ok_iff indexed]
  constructor
  · intro ⟨n, located, found⟩
    exact ⟨List.mem_of_getElem? located, found⟩
  · intro ⟨member, found⟩
    obtain ⟨n, located⟩ := List.getElem?_of_mem member
    exact ⟨n, located, found⟩

/-- Modules can be registered in all orders or in none, and any order finds the same modules. A list that is
refused is refused for the first module that conflicts with one before it. -/
theorem ofProviders_in_order (ps : List Provider) :
    ((∃ r, ofProviders ps = .ok r) ↔ ps.Pairwise Provider.Compatible) ∧
    (∀ qs, ps.Perm qs →
      ((∃ r, ofProviders ps = .ok r) ↔ ∃ r, ofProviders qs = .ok r) ∧
      ∀ r r', ofProviders ps = .ok r → ofProviders qs = .ok r' →
        ∀ role id, r.module? role id = r'.module? role id) ∧
    (∀ e, ofProviders ps = .error e ↔ ∃ p role, FirstRefused ps p role ∧ e = .collision (.backend role p.id)) ∧
    ∀ p q e, ofProviders [p, q] = .error e → ofProviders [q, p] = .error e := by
  refine ⟨ofProviders_ok_iff, ?_, fun e => ofProviders_eq_error_iff, ?_⟩
  · intro qs perm
    constructor
    · rw [ofProviders_ok_iff, ofProviders_ok_iff]
      apply perm.pairwise_iff
      intro p q apart role first second same
      exact apart role second first same.symm
    · intro r r' done done' role id
      obtain ⟨indexed, held⟩ := ofProviders_indexed done
      obtain ⟨indexed', held'⟩ := ofProviders_indexed done'
      apply Option.ext
      intro p
      rw [module?_eq_some_iff indexed, module?_eq_some_iff indexed', held, held', perm.mem_iff]
  · intro p q e refused
    rw [ofProviders_eq_error_iff] at refused ⊢
    simp only [firstRefused_pair] at refused ⊢
    obtain ⟨x, role, ⟨rfl, contested, least⟩, named⟩ := refused
    obtain ⟨contested', same⟩ := contested.symm
    refine ⟨p, role, ⟨rfl, contested', ?_⟩, same ▸ named⟩
    intro other shared
    exact least other shared.symm.1

/-- Two modules of one name that share no role are found in either order. A module that wants the roles of
both is refused, and so is either of them after that module, each time for the role that the two share. -/
theorem ofProviders_in_order_mock :
    let prover := bareProvider "mock" [.prover, .prover]
    let signer := bareProvider "mock" [.signer]
    let both := bareProvider "mock" [.prover, .signer]
    (∃ r r', ofProviders [prover, signer] = .ok r ∧ ofProviders [signer, prover] = .ok r' ∧
      r.module? .signer "mock" = r'.module? .signer "mock") ∧
    ofProviders [prover, both] = .error (.collision (.backend .prover "mock")) ∧
    ofProviders [both, prover] = .error (.collision (.backend .prover "mock")) := by
  intro prover signer both
  refine ⟨?_, rfl, (ofProviders_in_order []).2.2.2 prover both _ rfl⟩
  exact ⟨_, _, rfl, rfl, ((ofProviders_in_order [prover, signer]).2.1 _ (.swap _ _ [])).2 _ _ rfl rfl _ _⟩

end Registry

end ChainRelay
