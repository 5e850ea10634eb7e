import ChainRelay.Curve.Signature
import ChainRelay.Modules.Context
import ChainRelay.Wallet.Address
import ChainRelay.Wallet.Derivation
import ChainRelay.Wallet.Mnemonic

/-! # The wallet module

A signer whose key is derived from a recovery phrase, and the command that prints its address. -/

namespace ChainRelay.Hd

open Json Json.Reader Wallet

/-- The id of the module. -/
def moduleId : String := "hd"

/-- The first account of the usual path. -/
def defaultPath : String := "m/44'/60'/0'/0/0"

/-- The configuration of a signer. -/
structure Config where
  mnemonic : String
  path : String
  deriving DecidableEq

namespace Config

/-- The configuration as a JSON value. -/
def toValue (c : Config) : Value :=
  .object [("mnemonic", .string c.mnemonic), ("path", .string c.path)]

/-- The fields of a configuration while they are read. -/
structure Draft where
  mnemonic : Option String := none
  path : Option String := none

/-- How a configuration is read. -/
def shape : Shape Draft Config where
  title := "HdConfig"
  slots :=
    [ { name := "mnemonic", required := true, filled := (·.mnemonic.isSome)
        read := fun _ => do
          let s ← readText
          return fun d => { d with mnemonic := some s } },
      { name := "path", required := false, filled := (·.path.isSome)
        read := fun _ => do
          let s ← readText
          return fun d => { d with path := some s } } ]
  strict := true
  empty := {}
  finish := fun d => do return { mnemonic := ← d.mnemonic, path := d.path.getD defaultPath }

/-- Read a configuration. -/
def ofValue (v : Value) : Except Report Config :=
  readConfig shape.read v

/-- The phrase, without blank characters around it. -/
def phrase (c : Config) : String :=
  trimBlanks c.mnemonic

/-- The text of a configuration for diagnostics; the phrase is left out. -/
def debugText (c : Config) : String :=
  "HdConfig \x7b mnemonic: " ++ quoteText "<redacted>" ++ ", path: " ++ quoteText c.path ++ " \x7d"

end Config

/-- A derived key. -/
structure Signer where
  secret : Nat
  address : Address
  path : String

namespace Signer

/-- The signer that the checks of a configuration lead to: the path is checked before the phrase, and
the key is derived last. -/
def ofChecks (c : Config) (path : Option DerivationPath) (checked : Except PhraseError Unit)
    (derived : DerivationPath → Option ExtendedKey) : Except Report Signer :=
  match path with
  | none =>
    .error (.because ("invalid derivation path `" ++ c.path ++ "`")
      (.plain ("Malformatted index during derivation: " ++ c.path)))
  | some path =>
    let refused (message : String) : Except Report Signer :=
      .error (.because "invalid mnemonic" (.plain message))
    match checked with
    | .error e => refused e.message
    | .ok () =>
      match derived path with
      | none => refused "signature error"
      | some key =>
        .ok { secret := key.secret, path := c.path
              address := Address.ofPoint (Curve.publicPoint key.secret) }

/-- The signer of a configuration. -/
def ofConfig (c : Config) : Except Report Signer :=
  ofChecks c (readPath? c.path) (checkPhrase c.phrase) fun path =>
    (ExtendedKey.master? (seedOf c.phrase)).bind (·.derive? path)

/-- The number of bytes in a digest to sign. -/
def digestSize : Nat := 32

/-- Sign a digest. -/
def sign (s : Signer) (digest : List UInt8) : Except Report (List UInt8) :=
  if digest.length = digestSize then .ok (Curve.sign s.secret digest).bytes
  else
    .error (.plain ("digest must be " ++ Nat.repr digestSize ++ " bytes, got " ++
      Nat.repr digest.length))

/-- The text of a signer for diagnostics; the key is left out. -/
def debugText (s : Signer) : String :=
  "HdSigner \x7b address: " ++ s.address.text ++ ", path: " ++ quoteText s.path ++ ", .. \x7d"

/-- The signer as a backend. -/
def backend (s : Signer) : Backend :=
  { role := .signer, signer := some { address := s.address.checksumText, sign := s.sign } }

end Signer

/-- Derive a key and take note of its address. -/
def deriveSigner (c : Config) : Program (Except Report Signer) := do
  match Signer.ofConfig c with
  | .error report => return .error report
  | .ok s =>
    Program.log .debug .hd
      ("derived hd key address=" ++ s.address.checksumText ++ " path=" ++ c.path)
    return .ok s

/-- The fields of a configuration. -/
def schema : Schema :=
  [ { name := "mnemonic", kind := .string, presence := .required
      description := "BIP-39 mnemonic phrase" },
    { name := "path", kind := .string, presence := .optional (.string defaultPath)
      description := "BIP-32 derivation path" } ]

/-- Builds signers. -/
def factory : Factory := fun v => do
  match Config.ofValue v with
  | .error report => return .error report
  | .ok c => return (← deriveSigner c).map Signer.backend

/-- Print the address that a phrase and a path lead to. -/
def printAddress : Handler := fun ctx => do
  let mnemonic ← Attempt.ofOption "missing mnemonic" (ctx.matched.text? "mnemonic")
  let path := (ctx.matched.text? "path").getD defaultPath
  let s ← Attempt.ofProgram id (deriveSigner { mnemonic, path })
  Program.printLine s.address.checksumText

/-- The option for the phrase. -/
def mnemonicOption (env : Environment) : Args.ArgSpec :=
  { id := "mnemonic", long := some "mnemonic", required := true
    env := some (env.fallback "RELAYER_MNEMONIC" true)
    help := some "BIP-39 mnemonic phrase" }

/-- The option for the path. -/
def pathOption : Args.ArgSpec :=
  { id := "path", long := some "path", default := some defaultPath
    help := some "BIP-32 derivation path" }

/-- The commands of the module. -/
def fragments (env : Environment) : List (Fragment Handler) :=
  [ { path := [moduleId], about := "Inspect HD wallet keys" },
    { path := [moduleId, "address"], about := "Print the address derived from a mnemonic"
      args := [mnemonicOption env, pathOption]
      handler := some printAddress } ]

end Hd

/-- The module for signers with derived keys. -/
def hdModule : Module :=
  { provider := .single Hd.moduleId "BIP-39/BIP-32 secp256k1 signer" .signer Hd.schema Hd.factory
    commands := Hd.fragments }

end ChainRelay
