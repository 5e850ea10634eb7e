import ChainRelay.Commands.Modules
import ChainRelay.Proofs.Effects.Run

/-! # Registration

The index and the list of modules are two views of one registry. Registration keeps them in step:
the index leads from a role and an id to the one module that has both, and every answer of a registry
can be read off the modules that were accepted.
-/

namespace ChainRelay

theorem Provider.mem_declared {p : Provider} {role : Role} : role ∈ p.declared ↔ role ∈ p.roles := by
  simp [declared, Role.mem_all]

/-- The place of a role in ascending order. -/
def Role.place (role : Role) : Nat :=
  Role.all.idxOf role

theorem Provider.declared_ascending (p : Provider) : p.declared.Pairwise (·.place ≤ ·.place) :=
  List.Pairwise.filter _ (by decide)

namespace Registry

/-- Register modules one after the other; a refused one leaves the registry as it is. -/
@[local simp]
def attempts (r : Registry) : List Provider → Registry
  | [] => r
  | p :: rest =>
    match r.register p with
    | .ok r => attempts r rest
    | .error _ => attempts r rest

/-- The modules whose registration succeeds, in their order. -/
@[local simp]
def accepted (r : Registry) : List Provider → List Provider
  | [] => []
  | p :: rest =>
    match r.register p with
    | .ok r => p :: accepted r rest
    | .error _ => accepted r rest

/-- The index leads to a position exactly if the module there has the role and the id. -/
def Indexed (r : Registry) : Prop :=
  ∀ role id n, r.position? role id = some n ↔ ∃ p, r.providers[n]? = some p ∧ p.id = id ∧ role ∈ p.roles

theorem lookup_enter (id : String) (n : Nat) (roles : List Role) (index : List ((Role × String) × Nat))
    (role : Role) (asked : String) :
    (enter id n roles index).lookup (role, asked) =
      if asked = id ∧ role ∈ roles then some n else index.lookup (role, asked) := by
  unfold enter
  induction roles generalizing index with
  | nil => simp
  | cons first rest ih =>
      rw [List.foldl_cons, ih, List.lookup_cons]
      by_cases inRest : asked = id ∧ role ∈ rest
      · simp [inRest]
      · by_cases here : asked = id ∧ role = first
        · simp [here]
        · have key : ((role, asked) == (first, id)) = false := by
            simp only [beq_eq_false_iff_ne, ne_eq, Prod.mk.injEq]
            exact fun same => here ⟨same.2, same.1⟩
          have outside : ¬(asked = id ∧ role ∈ first :: rest) := by
            rintro ⟨sameId, member⟩
            rcases List.mem_cons.mp member with same | inside
            · exact here ⟨sameId, same⟩
            · exact inRest ⟨sameId, inside⟩
          simp only [inRest, outside, key, if_false]

theorem position?_register {r r' : Registry} {p : Provider} (done : r.register p = .ok r')
    (role : Role) (id : String) :
    r'.position? role id =
      if id = p.id ∧ role ∈ p.roles then some r.providers.length else r.position? role id := by
  unfold register at done
  cases taken : r.contested? p with
  | some other => simp [taken] at done
  | none =>
      simp only [taken, Except.ok.injEq] at done
      subst done
      simp only [position?, lookup_enter, Provider.mem_declared]

theorem providers_register {r r' : Registry} {p : Provider} (done : r.register p = .ok r') :
    r'.providers = r.providers ++ [p] := by
  unfold register at done
  cases taken : r.contested? p with
  | some other => simp [taken] at done
  | none =>
      simp only [taken, Except.ok.injEq] at done
      subst done
      rfl

/-- A module is accepted exactly if its id is free under all its roles. -/
theorem register_ok_iff {r : Registry} {p : Provider} :
    (∃ r', r.register p = .ok r') ↔ ∀ role ∈ p.roles, r.position? role p.id = none := by
  have free : r.contested? p = none ↔ ∀ role ∈ p.roles, r.position? role p.id = none := by
    simp [contested?, Provider.mem_declared]
  rw [← free]
  unfold register
  cases r.contested? p <;> simp

/-- A refusal names the least role under which the id is taken. -/
theorem register_error {r : Registry} {p : Provider} {e : Error} (refused : r.register p = .error e) :
    ∃ role ∈ p.roles, (r.position? role p.id).isSome ∧ e = .collision (.backend role p.id) ∧
      ∀ other ∈ p.roles, (r.position? other p.id).isSome → role.place ≤ other.place := by
  unfold register at refused
  cases taken : r.contested? p with
  | none => simp [taken] at refused
  | some role =>
      simp only [taken, Except.error.injEq] at refused
      obtain ⟨held, before, after, split, free⟩ := List.find?_eq_some_iff_append.mp taken
      have declared : role ∈ p.roles :=
        Provider.mem_declared.mp (split ▸ List.mem_append_right before List.mem_cons_self)
      refine ⟨role, declared, held, refused.symm, ?_⟩
      intro other member otherHeld
      have ascending := p.declared_ascending
      have inside := Provider.mem_declared.mpr member
      rw [split] at ascending inside
      rcases List.mem_append.mp inside with earlier | later
      · exact absurd otherHeld (by simpa using free other earlier)
      · rcases List.mem_cons.mp later with rfl | behind
        · exact Nat.le_refl _
        · exact List.rel_of_pairwise_cons (List.pairwise_append.mp ascending).2.1 behind

theorem indexed_empty : Indexed empty := by
  intro role id n
  simp [position?, empty]

/-- Registration keeps the index in step with the modules. -/
theorem indexed_register {r r' : Registry} {p : Provider} (indexed : Indexed r)
    (done : r.register p = .ok r') : Indexed r' := by
  have free := register_ok_iff.mp ⟨r', done⟩
  intro role id n
  rw [position?_register done, providers_register done]
  by_cases new : id = p.id ∧ role ∈ p.roles
  · obtain ⟨rfl, declared⟩ := new
    simp only [declared, and_self, if_true, Option.some.injEq]
    constructor
    · rintro rfl
      exact ⟨p, by simp, rfl, declared⟩
    · rintro ⟨q, located, same, member⟩
      have bounds := (List.getElem?_eq_some_iff.mp located).1
      rw [List.length_append, List.length_singleton] at bounds
      by_cases last : n = r.providers.length
      · exact last.symm
      · rw [List.getElem?_append_left (by omega)] at located
        have held := (indexed role p.id n).mpr ⟨q, located, same, member⟩
        rw [free role declared] at held
        cases held
  · simp only [new, if_false]
    rw [indexed role id n]
    constructor
    · rintro ⟨q, located, same, member⟩
      have bounds := (List.getElem?_eq_some_iff.mp located).1
      exact ⟨q, by rw [List.getElem?_append_left bounds, located], same, member⟩
    · rintro ⟨q, located, same, member⟩
      have bounds := (List.getElem?_eq_some_iff.mp located).1
      rw [List.length_append, List.length_singleton] at bounds
      by_cases last : n = r.providers.length
      · subst last
        simp only [List.getElem?_concat_length, Option.some.injEq] at located
        subst located
        exact absurd ⟨same.symm, member⟩ new
      · rw [List.getElem?_append_left (by omega)] at located
        exact ⟨q, located, same, member⟩

/-- After any attempts the index is in step with the modules. -/
theorem indexed_attempts (ps : List Provider) {r : Registry} (indexed : Indexed r) :
    Indexed (r.attempts ps) := by
  induction ps generalizing r with
  | nil => exact indexed
  | cons p rest ih =>
      cases result : r.register p with
      | ok r' => simpa only [attempts, result] using ih (indexed_register indexed result)
      | error e => simpa only [attempts, result] using ih indexed

/-- After any attempts the registry holds what it held before and the accepted modules. -/
theorem providers_attempts (ps : List Provider) (r : Registry) :
    (r.attempts ps).providers = r.providers ++ r.accepted ps := by
  induction ps generalizing r with
  | nil => simp
  | cons p rest ih =>
      cases result : r.register p with
      | ok r' =>
          simp only [attempts, accepted, result]
          rw [ih r', providers_register result, List.append_assoc, List.singleton_append]
      | error e =>
          simp only [attempts, accepted, result]
          exact ih r

theorem attempts_append (ps qs : List Provider) (r : Registry) :
    r.attempts (ps ++ qs) = (r.attempts ps).attempts qs := by
  induction ps generalizing r with
  | nil => rfl
  | cons p rest ih =>
      cases result : r.register p with
      | ok r' => simpa only [List.cons_append, attempts, result] using ih r'
      | error e => simpa only [List.cons_append, attempts, result] using ih r

theorem accepted_append (ps qs : List Provider) (r : Registry) :
    r.accepted (ps ++ qs) = r.accepted ps ++ (r.attempts ps).accepted qs := by
  induction ps generalizing r with
  | nil => rfl
  | cons p rest ih =>
      cases result : r.register p with
      | ok r' => simp only [List.cons_append, attempts, accepted, result, ih r']
      | error e => simp only [List.cons_append, attempts, accepted, result, ih r]

theorem resolve_error {r : Registry} {role : Role} {id : String} {e : Error}
    (refused : r.resolve role id = .error e) :
    e = .notFound role id (r.identifiers role) := by
  unfold resolve at refused
  cases found : (r.position? role id).bind fun n => (r.providers[n]?).map (n, ·) with
  | none => simpa [found] using refused.symm
  | some pair => simp [found] at refused

theorem mem_of_resolve {r : Registry} {role : Role} {id : String} {n : Nat} {p : Provider}
    (found : r.resolve role id = .ok (n, p)) : p ∈ r.providers := by
  unfold resolve at found
  split at found
  · rename_i pair located
    cases found
    obtain ⟨n, -, entry⟩ := Option.bind_eq_some_iff.mp located
    obtain ⟨q, here, same⟩ := Option.map_eq_some_iff.mp entry
    cases same
    exact List.mem_of_getElem? here
  · cases found

/-- No id is listed twice. -/
theorem identifiers_nodup (r : Registry) (role : Role) : (r.identifiers role).Nodup := by
  rw [identifiers, List.Nodup, List.pairwise_map]
  have ordered : r.providers.zipIdx.Pairwise (fun a b => a.2 ≠ b.2) := by
    rw [← List.pairwise_map (f := Prod.snd), List.zipIdx_map_snd]
    exact List.nodup_range'
  refine (ordered.filter _).imp_of_mem ?_
  intro a b left right apart same
  have leftFound := (List.mem_filter.mp left).2
  have rightFound := (List.mem_filter.mp right).2
  simp only [beq_iff_eq] at leftFound rightFound
  rw [same, rightFound, Option.some.injEq] at leftFound
  exact apart leftFound.symm

/-- The lines of a listing: for each role the modules that declare it, in their order. -/
def listing (ps : List Provider) : List String :=
  Role.all.flatMap fun role => (ps.filter (·.roles.contains role)).map fun p =>
    Commands.moduleLine role p.id p.description ++ "\n"

theorem run_listModule {r : Registry} {matched : Args.Matches} {role : Role} {n : Nat} {p : Provider}
    (found : r.resolve role p.id = .ok (n, p)) (w : World) :
    World.run (Commands.listModule { matched, registry := r } role p.id).run w =
      (.finished (.ok ()), w.write [Commands.moduleLine role p.id p.description ++ "\n"]) := by
  simp only [Commands.listModule, found]
  rfl

section Indexed

variable {r : Registry} (indexed : Indexed r)
include indexed

theorem position?_isSome_iff {role : Role} {id : String} :
    (r.position? role id).isSome ↔ ∃ p ∈ r.providers, p.id = id ∧ role ∈ p.roles := by
  rw [Option.isSome_iff_exists]
  constructor
  · rintro ⟨n, held⟩
    obtain ⟨p, located, same, declared⟩ := (indexed role id n).mp held
    exact ⟨p, List.mem_of_getElem? located, same, declared⟩
  · rintro ⟨p, member, same, declared⟩
    obtain ⟨n, located⟩ := List.getElem?_of_mem member
    exact ⟨n, (indexed role id n).mpr ⟨p, located, same, declared⟩⟩

theorem resolve_ok_iff {role : Role} {id : String} {n : Nat} {p : Provider} :
    r.resolve role id = .ok (n, p) ↔ r.providers[n]? = some p ∧ p.id = id ∧ role ∈ p.roles := by
  have step : r.resolve role id = .ok (n, p) ↔
      r.position? role id = some n ∧ r.providers[n]? = some p := by
    unfold resolve
    cases r.position? role id with
    | none => simp
    | some m => cases located : r.providers[m]? <;> simp [located] <;> grind
  rw [step, indexed role id n]
  constructor
  · rintro ⟨⟨q, located, same, member⟩, found⟩
    rw [located, Option.some.injEq] at found
    subst found
    exact ⟨located, same, member⟩
  · rintro ⟨located, same, member⟩
    exact ⟨⟨p, located, same, member⟩, located⟩

/-- The index leads back to a listed module exactly for the roles that it declares. -/
theorem position?_of_mem {role : Role} {p : Provider} {n : Nat} (member : (p, n) ∈ r.providers.zipIdx) :
    (r.position? role p.id == some n) = p.roles.contains role := by
  have located : r.providers[n]? = some p := by simpa [List.mem_zipIdx_iff_getElem?] using member
  rw [Bool.eq_iff_iff, beq_iff_eq, List.contains_iff_mem, indexed role p.id n]
  constructor
  · rintro ⟨q, found, -, declared⟩
    rw [located, Option.some.injEq] at found
    exact found ▸ declared
  · exact fun declared => ⟨p, located, rfl, declared⟩

theorem identifiers_eq (role : Role) :
    r.identifiers role = (r.providers.filter (·.roles.contains role)).map (·.id) := by
  have chosen : (r.providers.zipIdx.filter fun entry => r.position? role entry.1.id == some entry.2) =
      r.providers.zipIdx.filter fun entry => entry.1.roles.contains role :=
    List.filter_congr fun entry member => position?_of_mem indexed member
  calc
    r.identifiers role
      = (r.providers.zipIdx.filter fun entry => entry.1.roles.contains role).map (·.1.id) := by
        rw [← chosen]
        rfl
    _ = ((r.providers.zipIdx.map Prod.fst).filter (·.roles.contains role)).map (·.id) := by
        rw [List.filter_map, List.map_map]
        rfl
    _ = (r.providers.filter (·.roles.contains role)).map (·.id) := by rw [List.zipIdx_map_fst]

/-- Listing the modules succeeds in every world. -/
theorem run_listModules (matched : Args.Matches) (w : World) :
    World.run (Commands.listModules { matched, registry := r }).run w =
      (.finished (.ok ()), w.write (listing r.providers)) := by
  refine Attempt.run_forM (fun role _ w => ?_) w
  rw [identifiers_eq indexed role, List.forM_eq_forM, List.forM_map, List.map_eq_flatMap]
  refine Attempt.run_forM (fun p chosen w => ?_) w
  obtain ⟨member, declared⟩ := List.mem_filter.mp chosen
  obtain ⟨n, located⟩ := List.getElem?_of_mem member
  exact run_listModule ((resolve_ok_iff indexed).mpr
    ⟨located, rfl, List.contains_iff_mem.mp declared⟩) w

end Indexed

/-- What a registry answers when it holds these modules, in this order. -/
structure Answers (r : Registry) (ps : List Provider) : Prop where
  providers : r.providers = ps
  /-- A role and an id are resolved exactly if a module has both. -/
  resolves_iff : ∀ role id, (∃ found, r.resolve role id = .ok found) ↔ ∃ p ∈ ps, p.id = id ∧ role ∈ p.roles
  /-- The module that is found has the role and the id, and no other one has. -/
  resolved : ∀ role id n p, r.resolve role id = .ok (n, p) →
    ps[n]? = some p ∧ p.id = id ∧ role ∈ p.roles ∧
      ∀ m q, ps[m]? = some q → q.id = id → role ∈ q.roles → m = n
  unresolved : ∀ role id e, r.resolve role id = .error e → e = .notFound role id (r.identifiers role)
  identifiers : ∀ role, r.identifiers role = (ps.filter (·.roles.contains role)).map (·.id)
  identifiers_nodup : ∀ role, (r.identifiers role).Nodup
  identifiers_resolve : ∀ role, ∀ id ∈ r.identifiers role, ∃ found, r.resolve role id = .ok found
  /-- Listing the modules never fails and writes a line for each declared role of each module. -/
  listed : ∀ matched w, ∃ w',
    World.run (Commands.listModules { matched, registry := r }).run w = (.finished (.ok ()), w') ∧
      w'.printed = (listing ps).reverse ++ w.printed

theorem Indexed.answers {r : Registry} (indexed : Indexed r) : Answers r r.providers where
  providers := rfl
  resolves_iff := by
    intro role id
    constructor
    · rintro ⟨⟨n, p⟩, found⟩
      obtain ⟨located, same, member⟩ := (resolve_ok_iff indexed).mp found
      exact ⟨p, List.mem_of_getElem? located, same, member⟩
    · rintro ⟨p, member, same, declared⟩
      obtain ⟨n, located⟩ := List.getElem?_of_mem member
      exact ⟨(n, p), (resolve_ok_iff indexed).mpr ⟨located, same, declared⟩⟩
  resolved := by
    intro role id n p found
    obtain ⟨located, same, declared⟩ := (resolve_ok_iff indexed).mp found
    refine ⟨located, same, declared, ?_⟩
    intro m q other sameId member
    have here := (indexed role id n).mpr ⟨p, located, same, declared⟩
    have there := (indexed role id m).mpr ⟨q, other, sameId, member⟩
    rw [here, Option.some.injEq] at there
    exact there.symm
  unresolved := fun _ _ _ refused => resolve_error refused
  identifiers := identifiers_eq indexed
  identifiers_nodup := identifiers_nodup r
  identifiers_resolve := by
    intro role id listed
    rw [identifiers_eq indexed role] at listed
    obtain ⟨p, chosen, rfl⟩ := List.mem_map.mp listed
    obtain ⟨member, declared⟩ := List.mem_filter.mp chosen
    obtain ⟨n, located⟩ := List.getElem?_of_mem member
    exact ⟨(n, p), (resolve_ok_iff indexed).mpr ⟨located, rfl, List.contains_iff_mem.mp declared⟩⟩
  listed := by
    intro matched w
    exact ⟨_, run_listModules indexed matched w, World.printed_write _ w⟩

/-- After any attempts to register modules the registry answers for exactly the accepted ones. A
refused attempt changes nothing and names the least role under which an accepted module has the id. -/
theorem attempts_answer (ps : List Provider) :
    Answers (empty.attempts ps) (empty.accepted ps) ∧
      ∀ p e, (empty.attempts ps).register p = .error e →
        empty.attempts (ps ++ [p]) = empty.attempts ps ∧
        empty.accepted (ps ++ [p]) = empty.accepted ps ∧
        ∃ role ∈ p.roles, (∃ q ∈ empty.accepted ps, q.id = p.id ∧ role ∈ q.roles) ∧
          e = .collision (.backend role p.id) ∧
          ∀ other ∈ p.roles, (∃ q ∈ empty.accepted ps, q.id = p.id ∧ other ∈ q.roles) →
            role.place ≤ other.place := by
  have indexed := indexed_attempts ps indexed_empty
  have held : (empty.attempts ps).providers = empty.accepted ps := by
    simp [providers_attempts, empty]
  have taken (role : Role) (id : String) : ((empty.attempts ps).position? role id).isSome ↔
      ∃ q ∈ empty.accepted ps, q.id = id ∧ role ∈ q.roles := by
    rw [position?_isSome_iff indexed, held]
  refine ⟨held ▸ indexed.answers, ?_⟩
  intro p e refused
  obtain ⟨role, declared, holds, named, least⟩ := register_error refused
  refine ⟨?_, ?_, role, declared, (taken role p.id).mp holds, named, ?_⟩
  · simp only [attempts_append, attempts, refused]
  · simp only [accepted_append, accepted, refused, List.append_nil]
  · exact fun other member there => least other member ((taken other p.id).mpr there)

/-- A module that declares roles and provides none of them. -/
def bareProvider (id : String) (roles : List Role) : Provider :=
  { id, roles, description := ""
    schema := fun role => .error (.unsupportedRole id role)
    factory := fun role => .error (.unsupportedRole id role) }

/-- Of a prover named twice and a signer of the same name, a module that wants all three roles is
refused for the signer. -/
theorem attempts_answer_contested :
    let ps := [bareProvider "mock" [.prover, .prover], bareProvider "mock" [.signer]]
    let p := bareProvider "mock" [.prover, .chain, .signer]
    (empty.attempts ps).register p = .error (.collision (.backend .signer "mock")) ∧
      empty.attempts (ps ++ [p]) = empty.attempts ps := by
  intro ps p
  have refused : (empty.attempts ps).register p = .error (.collision (.backend .signer "mock")) := rfl
  exact ⟨refused, ((attempts_answer ps).2 p _ refused).1⟩

end Registry

end ChainRelay
