import ChainRelay.Error
import ChainRelay.Modules.Backend
import ChainRelay.Schema

/-! # Providers

A provider is the part of a module that serves roles: it declares them, has a schema for the
configuration of each, and builds backends. -/

namespace ChainRelay

/-- Builds a backend from a configuration. -/
abbrev Factory := Json.Value → Program (Except Report Backend)

/-- What a module provides for roles. -/
structure Provider where
  /-- The name that selects the module in settings. -/
  id : String
  /-- The roles that the module declares. -/
  roles : List Role
  /-- One line for listings. -/
  description : String
  schema : Role → Except Error Schema
  factory : Role → Except Error Factory

/-- A provider of one role. -/
def Provider.single (id description : String) (role : Role) (schema : Schema) (factory : Factory) :
    Provider :=
  let only {α : Type} (a : α) (asked : Role) : Except Error α :=
    if asked = role then .ok a else .error (.unsupportedRole id asked)
  { id, roles := [role], description, schema := only schema, factory := only factory }

end ChainRelay
