/-! # Roles

What a module can do for a chain: talk to it, sign for it, or prove its state. -/

namespace ChainRelay

/-- A capability that a module can provide. -/
inductive Role where
  /-- Talks to a chain: queries state and submits transactions. -/
  | chain
  /-- Holds keys and signs on behalf of a chain backend. -/
  | signer
  /-- Produces light-client states and state proofs. -/
  | prover
  deriving DecidableEq, Repr

namespace Role

/-- Every role, in ascending order. -/
def all : List Role :=
  [.chain, .signer, .prover]

/-- The name of a role. -/
def name : Role → String
  | .chain => "chain"
  | .signer => "signer"
  | .prover => "prover"

/-- What a role is for. -/
def about : Role → String
  | .chain => "Talks to a chain: queries state and submits transactions"
  | .signer => "Holds keys and signs on behalf of a chain backend"
  | .prover => "Produces light-client states and state proofs"

/-- The role of a name. -/
def ofName? (s : String) : Option Role :=
  all.find? (·.name == s)

/-- The role of a name in upper or lower case. -/
def ofAnyCase? (s : String) : Option Role :=
  ofName? (String.ofList (s.toList.map Char.toLower))

theorem mem_all (r : Role) : r ∈ all := by
  cases r <;> decide

end Role

end ChainRelay
