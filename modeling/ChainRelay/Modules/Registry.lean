import ChainRelay.Config.Settings
import ChainRelay.Modules.Provider

/-! # The registry

The registry holds the registered modules in order. A module is found under each of its declared
roles; no two modules share a role and an id. -/

namespace ChainRelay

/-- The registered modules, in the order of registration, and an index of their positions. -/
structure Registry where
  providers : List Provider
  /-- The position of the module under each role and id; of two entries the first counts. -/
  index : List ((Role × String) × Nat)

/-- The backends of a chain. -/
structure ChainBackends where
  chain : Backend
  signer : Option Backend
  prover : Backend

/-- The roles that a module declares, each once, the least first. -/
def Provider.declared (p : Provider) : List Role :=
  Role.all.filter p.roles.contains

namespace Registry

/-- No modules. -/
def empty : Registry :=
  ⟨[], []⟩

/-- The position of the module with a role and an id. -/
def position? (r : Registry) (role : Role) (id : String) : Option Nat :=
  r.index.lookup (role, id)

/-- The least declared role of a module under which its id is taken. -/
def contested? (r : Registry) (p : Provider) : Option Role :=
  p.declared.find? fun role => (r.position? role p.id).isSome

/-- Enter a position under an id and each of some roles. -/
def enter (id : String) (position : Nat) (roles : List Role) (index : List ((Role × String) × Nat)) :
    List ((Role × String) × Nat) :=
  roles.foldl (fun index role => ((role, id), position) :: index) index

/-- Register a module under all its roles. -/
def register (r : Registry) (p : Provider) : Except Error Registry :=
  match r.contested? p with
  | some role => .error (.collision (.backend role p.id))
  | none =>
    .ok { providers := r.providers ++ [p], index := enter p.id r.providers.length p.declared r.index }

/-- Register modules in order. -/
def registerAll (r : Registry) : List Provider → Except Error Registry
  | [] => .ok r
  | p :: rest =>
    match r.register p with
    | .ok r => registerAll r rest
    | .error e => .error e

/-- The registry of some modules. -/
def ofProviders (ps : List Provider) : Except Error Registry :=
  registerAll empty ps

/-- The ids registered for a role, in order: those of the modules that the index leads back to. -/
def identifiers (r : Registry) (role : Role) : List String :=
  (r.providers.zipIdx.filter fun (p, n) => r.position? role p.id == some n).map (·.1.id)

/-- The module with a role and an id, and its position. -/
def resolve (r : Registry) (role : Role) (id : String) : Except Error (Nat × Provider) :=
  match (r.position? role id).bind fun n => (r.providers[n]?).map (n, ·) with
  | some found => .ok found
  | none => .error (.notFound role id (r.identifiers role))

/-- Check a configuration against the schema of its module; nothing is built. -/
def validate (r : Registry) (role : Role) (config : BackendConfig) : Except Error Unit := do
  let (_, p) ← r.resolve role config.module
  let schema ← p.schema role
  match schema.validate config.config with
  | .ok () => return ()
  | .error e => throw (.configuration role config.module (.plain e.message))

/-- The factory that would build a backend, with the position of its module. -/
def factoryFor (r : Registry) (role : Role) (config : BackendConfig) :
    Except Error (Nat × Factory) := do
  r.validate role config
  let (position, p) ← r.resolve role config.module
  return (position, ← p.factory role)

/-- A backend that a factory produced, if it is one for the role. -/
def accept (role : Role) (id : String) : Except Report Backend → Except Error Backend
  | .error report => .error (.configuration role id report)
  | .ok backend =>
    if backend.role = role then .ok backend
    else
      .error (.configuration role id
        (.plain ("factory produced a " ++ backend.role.name ++ " backend")))

/-- The span of building a backend. -/
def buildSpan (role : Role) (id : String) : String :=
  let title := match role with
    | .chain => "Chain"
    | .signer => "Signer"
    | .prover => "Prover"
  "build_backend\x7brole=" ++ title ++ " module=" ++ id ++ "\x7d"

/-- Build a backend from the settings of a role. -/
def buildBackend (r : Registry) (role : Role) (config : BackendConfig) :
    Program (Except Error Backend) :=
  Program.within (buildSpan role config.module) do
    match r.factoryFor role config with
    | .error e => return .error e
    | .ok (position, create) =>
      Program.question (.construct position role config.config)
      let built ← create config.config
      match accept role config.module built with
      | .error e => return .error e
      | .ok backend =>
        Program.log .debug .registry "backend created"
        return .ok backend

/-- Build the backends of a chain: the signer if there is one, then the chain, then the prover. -/
def buildChain (r : Registry) (c : ChainConfig) : Program (Except Error ChainBackends) := do
  let signer ← match c.signer with
    | none => pure (.ok none)
    | some s => do
      match ← r.buildBackend .signer s with
      | .ok backend => pure (.ok (some backend))
      | .error e => pure (Except.error e)
  match signer with
  | .error e => return .error e
  | .ok signer =>
    match ← r.buildBackend .chain c.chain with
    | .error e => return .error e
    | .ok chain =>
      match ← r.buildBackend .prover c.prover with
      | .error e => return .error e
      | .ok prover => return .ok { chain, signer, prover }

end Registry

end ChainRelay
