import ChainRelay.App
import ChainRelay.Args.Failure
import ChainRelay.Args.Help
import ChainRelay.Args.Matches
import ChainRelay.Args.Parse
import ChainRelay.Args.Receive
import ChainRelay.Args.Spec
import ChainRelay.Command.Fragment
import ChainRelay.Command.Nearest
import ChainRelay.Command.Path
import ChainRelay.Command.Routing
import ChainRelay.Command.Tree
import ChainRelay.Commands.BuiltIn
import ChainRelay.Commands.Chains
import ChainRelay.Commands.Modules
import ChainRelay.Commands.Settings
import ChainRelay.Config.Fault
import ChainRelay.Config.Settings
import ChainRelay.Curve.Secp256k1
import ChainRelay.Curve.Signature
import ChainRelay.Decimal.Shortest
import ChainRelay.Digest.Hmac
import ChainRelay.Digest.Keccak
import ChainRelay.Digest.Sha2
import ChainRelay.Effects.Attempt
import ChainRelay.Effects.Log
import ChainRelay.Effects.Program
import ChainRelay.Effects.World
import ChainRelay.Error
import ChainRelay.Ethereum.Chain
import ChainRelay.Ethereum.Config
import ChainRelay.Ethereum.Quantity
import ChainRelay.Ethereum.Rpc
import ChainRelay.Files.FilePath
import ChainRelay.Files.FileTree
import ChainRelay.Hd.Signer
import ChainRelay.Json.Fault
import ChainRelay.Json.Number
import ChainRelay.Json.Printer
import ChainRelay.Json.Reader
import ChainRelay.Json.Shape
import ChainRelay.Json.Skip
import ChainRelay.Json.Value
import ChainRelay.Launch
import ChainRelay.Main
import ChainRelay.Mock.Prover
import ChainRelay.Modules.Backend
import ChainRelay.Modules.Context
import ChainRelay.Modules.Provider
import ChainRelay.Modules.Registry
import ChainRelay.Net.Domain
import ChainRelay.Net.Endpoint
import ChainRelay.Net.Host
import ChainRelay.Net.Punycode
import ChainRelay.Net.Url
import ChainRelay.Proofs.Args.Completion
import ChainRelay.Proofs.Args.Dashes
import ChainRelay.Proofs.Args.Entrances
import ChainRelay.Proofs.Args.Kin
import ChainRelay.Proofs.Args.Placing
import ChainRelay.Proofs.Command.Extension
import ChainRelay.Proofs.Command.Given
import ChainRelay.Proofs.Command.Growth
import ChainRelay.Proofs.Command.History
import ChainRelay.Proofs.Command.Insertion
import ChainRelay.Proofs.Command.Lending
import ChainRelay.Proofs.Command.Levels
import ChainRelay.Proofs.Command.Lookahead
import ChainRelay.Proofs.Command.Names
import ChainRelay.Proofs.Command.Nearest
import ChainRelay.Proofs.Command.Omission
import ChainRelay.Proofs.Command.Options
import ChainRelay.Proofs.Command.Order
import ChainRelay.Proofs.Command.Places
import ChainRelay.Proofs.Command.Preorder
import ChainRelay.Proofs.Command.Reaching
import ChainRelay.Proofs.Command.Selection
import ChainRelay.Proofs.Command.Sharing
import ChainRelay.Proofs.Command.Unset
import ChainRelay.Proofs.Command.Widening
import ChainRelay.Proofs.Commands.Adding
import ChainRelay.Proofs.Commands.Checking
import ChainRelay.Proofs.Commands.Definitions
import ChainRelay.Proofs.Commands.Harmless
import ChainRelay.Proofs.Commands.Saving
import ChainRelay.Proofs.Commands.Stopping
import ChainRelay.Proofs.Composition
import ChainRelay.Proofs.Config.Agreement
import ChainRelay.Proofs.Config.Defaults
import ChainRelay.Proofs.Config.Editing
import ChainRelay.Proofs.Config.Reloading
import ChainRelay.Proofs.Config.Roundtrip
import ChainRelay.Proofs.Config.Schemas
import ChainRelay.Proofs.Config.Storing
import ChainRelay.Proofs.Config.Trailing
import ChainRelay.Proofs.Config.Verdicts
import ChainRelay.Proofs.Effects.Carrying
import ChainRelay.Proofs.Effects.Harmless
import ChainRelay.Proofs.Effects.Polling
import ChainRelay.Proofs.Effects.Run
import ChainRelay.Proofs.Effects.Spans
import ChainRelay.Proofs.Effects.Steps
import ChainRelay.Proofs.Ethereum.Asking
import ChainRelay.Proofs.Ethereum.Quantities
import ChainRelay.Proofs.Ethereum.Replies
import ChainRelay.Proofs.Extension
import ChainRelay.Proofs.Files.Around
import ChainRelay.Proofs.Files.Home
import ChainRelay.Proofs.Files.Located
import ChainRelay.Proofs.Files.Places
import ChainRelay.Proofs.Files.Rereading
import ChainRelay.Proofs.GlobalOptions
import ChainRelay.Proofs.Json.Closing
import ChainRelay.Proofs.Json.ContainerTexts
import ChainRelay.Proofs.Json.Deciding
import ChainRelay.Proofs.Json.Decoding
import ChainRelay.Proofs.Json.Documents
import ChainRelay.Proofs.Json.Edges
import ChainRelay.Proofs.Json.Entries
import ChainRelay.Proofs.Json.Fields
import ChainRelay.Proofs.Json.Grammar
import ChainRelay.Proofs.Json.Nesting
import ChainRelay.Proofs.Json.NumberTexts
import ChainRelay.Proofs.Json.Omitting
import ChainRelay.Proofs.Json.Reading
import ChainRelay.Proofs.Json.RecordTexts
import ChainRelay.Proofs.Json.Records
import ChainRelay.Proofs.Json.Refusing
import ChainRelay.Proofs.Json.Results
import ChainRelay.Proofs.Json.Room
import ChainRelay.Proofs.Json.Skipping
import ChainRelay.Proofs.Json.StringTexts
import ChainRelay.Proofs.Json.Syntax
import ChainRelay.Proofs.Json.Taking
import ChainRelay.Proofs.Json.Tokens
import ChainRelay.Proofs.Json.WholeTexts
import ChainRelay.Proofs.Launching
import ChainRelay.Proofs.Mock.Commitments
import ChainRelay.Proofs.Mock.States
import ChainRelay.Proofs.Registration
import ChainRelay.Proofs.Registration.Building
import ChainRelay.Proofs.Registration.Order
import ChainRelay.Proofs.Sessions
import ChainRelay.Proofs.Text.Encoding
import ChainRelay.Proofs.Wallet.AddressText
import ChainRelay.Proofs.Wallet.CommandLine
import ChainRelay.Proofs.Wallet.Disclosure
import ChainRelay.Proofs.Wallet.Words
import ChainRelay.Report
import ChainRelay.Role
import ChainRelay.Schema
import ChainRelay.Shipped
import ChainRelay.Text.Blank
import ChainRelay.Text.Escaped
import ChainRelay.Text.Hex
import ChainRelay.Text.Plain
import ChainRelay.Text.Printable
import ChainRelay.Text.Raw
import ChainRelay.Text.Similarity
import ChainRelay.Wallet.Address
import ChainRelay.Wallet.AddressText
import ChainRelay.Wallet.Derivation
import ChainRelay.Wallet.Mnemonic
import ChainRelay.Wallet.WordList
import ChainRelay.Proofs.Command.Texts
import ChainRelay.Proofs.Command.Messages
