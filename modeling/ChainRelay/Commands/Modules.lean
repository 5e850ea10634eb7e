import ChainRelay.Modules.Context

/-! # Commands for modules

`modules list` and `modules schema`. -/

namespace ChainRelay.Commands

/-- A module in a role on one line. -/
def moduleLine (role : Role) (id description : String) : String :=
  padRight 7 role.name ++ " " ++ padRight 12 id ++ " " ++ description

/-- Print the line of a module that is registered for a role. -/
def listModule (ctx : Context) (role : Role) (id : String) : Attempt Unit := do
  let (_, p) ← Attempt.ofExcept Error.report (ctx.registry.resolve role id)
  Program.printLine (moduleLine role id p.description)

/-- Print one line for each role and module. -/
def listModules : Handler := fun ctx =>
  Role.all.forM fun role => (ctx.registry.identifiers role).forM (listModule ctx role)

/-- Print the schema of a module for a role. -/
def showSchema : Handler := fun ctx => do
  let role ← Attempt.ofOption "missing role argument"
    ((ctx.matched.choice? "role").bind Role.ofName?)
  let id ← Attempt.ofOption "missing id argument" (ctx.matched.text? "id")
  let (_, p) ← Attempt.ofExcept Error.report (ctx.registry.resolve role id)
  let schema ← Attempt.ofExcept Error.report (p.schema role)
  Program.print schema.help

/-- The commands for modules. -/
def moduleFragments : List (Fragment Handler) :=
  [ { path := ["modules"], about := "Inspect the modules built into this binary" },
    { path := ["modules", "list"], about := "List registered backends by role"
      handler := some listModules },
    { path := ["modules", "schema"], about := "Print the configuration schema of a backend"
      args :=
        [ { id := "role", required := true
            kind := .choice (Role.all.map fun r => (r.name, r.about)) },
          { id := "id", required := true } ]
      handler := some showSchema } ]

end ChainRelay.Commands
