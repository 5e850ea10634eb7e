import ChainRelay.Effects.Program
import ChainRelay.Ethereum.Quantity
import ChainRelay.Json.Shape
import ChainRelay.Net.Url
import ChainRelay.Report

/-! # Asking a node

A client posts one JSON request per question and reads the result from the reply; an error that the
node reports wins over a result. -/

namespace ChainRelay.Ethereum

open Json Json.Reader

/-- Why a question to a node has no answer. -/
inductive RpcError where
  /-- The exchange failed, with the causes of that. -/
  | http (message : String) (causes : List String)
  /-- The node reported an error. -/
  | rpc (code : Int) (message : String)
  /-- The reply makes no sense. -/
  | malformed (text : String)
  deriving DecidableEq, Repr

/-- An error as a report. -/
def RpcError.report : RpcError → Report
  | .http message causes => ⟨"http error: " ++ message, message :: causes⟩
  | .rpc code message => .plain ("rpc error " ++ Json.Number.intText code ++ ": " ++ message)
  | .malformed text => .plain ("malformed response: " ++ text)

/-- An error that a node reports. -/
structure NodeError where
  code : Int
  message : String
  deriving DecidableEq, Repr

/-- A whole number of 64 bits with sign. -/
def readInt64 : Reader Int := do
  let b ← firstOfValue
  if b = 0x2D ∨ isDigit b then
    match ← readNumber with
    | .int n fits =>
      if n < 0x8000000000000000 then return n else failHere (.wrongValue (.number (.int n fits)) "i64")
    | .float x => failHere (.wrongType (.number (.float x)) "i64")
  else failOnNext "i64"

/-- The fields of a reported error while they are read. -/
structure NodeError.Draft where
  code : Option Int := none
  message : Option String := none

/-- How a reported error is read. -/
def NodeError.shape : Shape NodeError.Draft NodeError where
  title := "ErrorObject"
  slots :=
    [ { name := "code", required := true, filled := (·.code.isSome)
        read := fun _ => do
          let n ← readInt64
          return fun d => { d with code := some n } },
      { name := "message", required := true, filled := (·.message.isSome)
        read := fun _ => do
          let s ← readText
          return fun d => { d with message := some s } } ]
  strict := false
  empty := {}
  finish := fun d => do return { code := ← d.code, message := ← d.message }

/-- The body of a reply. -/
structure Answer where
  result : Option String
  error : Option NodeError
  deriving DecidableEq, Repr

/-- The fields of a reply while they are read. -/
structure Answer.Draft where
  result : Option (Option String) := none
  error : Option (Option NodeError) := none

/-- How the body of a reply is read. -/
def Answer.shape : Shape Answer.Draft Answer where
  title := "Response"
  slots :=
    [ { name := "result", required := false, filled := (·.result.isSome)
        read := fun _ => do
          let r ← readOptional readText
          return fun d => { d with result := some r } },
      { name := "error", required := false, filled := (·.error.isSome)
        read := fun room => do
          let e ← readOptional (NodeError.shape.read room)
          return fun d => { d with error := some e } } ]
  strict := false
  empty := {}
  finish := fun d => some { result := d.result.getD none, error := d.error.getD none }

/-- The body of a reply that is one JSON document. -/
def Answer.decode (body : List UInt8) : Except Refusal Answer :=
  runReader (do
    let a ← Answer.shape.read depthLimit
    readEnd
    return a) body

/-- The question for the number of the latest block. -/
def blockNumberMethod : String := "eth_blockNumber"

/-- The body of a request. -/
def requestBody (method : String) : String :=
  (Value.object [("jsonrpc", .string "2.0"), ("id", .ofUInt64 1), ("method", .string method),
    ("params", .array [])]).compact

/-- The result of a reply. -/
def resultOf (url : Net.Url) (method : String) : Reply → Except RpcError String
  | .unreachable causes =>
    .error (.http ("error sending request for url (" ++ url.publicText ++ ")") causes)
  | .silence =>
    .error (.http ("error sending request for url (" ++ url.publicText ++ ")") ["operation timed out"])
  | .response status reason body =>
    let refused (who : String) : Except RpcError String :=
      .error (.http ("HTTP status " ++ who ++ " error (" ++ Nat.repr status ++ " " ++ reason ++
        ") for url (" ++ url.publicText ++ ")") [])
    if 400 ≤ status ∧ status < 500 then refused "client"
    else if 500 ≤ status ∧ status < 600 then refused "server"
    else
      match Answer.decode body with
      | .error r => .error (.http "error decoding response body" [r.message])
      | .ok { error := some e, .. } => .error (.rpc e.code e.message)
      | .ok { result := some result, .. } => .ok result
      | .ok _ =>
        .error (.malformed ("`" ++ method ++ "` returned neither a result nor an error"))

/-- Ask a node. -/
def call (url : Net.Url) (method : String) : Program (Except RpcError String) :=
  Program.within ("call\x7bmethod=" ++ Json.quoted method ++ " url=" ++ url.text ++ "\x7d") do
    Program.log .debug .rpc "json-rpc request"
    if url.scheme = "http" ∨ url.scheme = "https" then
      return resultOf url method (← Program.post url.text (requestBody method))
    else
      return .error
        (.http ("builder error for url (" ++ url.publicText ++ ")") ["URL scheme is not allowed"])

/-- The number that a result writes. -/
def heightOf (result : String) : Except RpcError UInt64 :=
  match readQuantity result with
  | .ok n => .ok n
  | .error e => .error (.malformed (e.message result))

/-- Ask for the number of the latest block. -/
def blockNumber (url : Net.Url) : Program (Except RpcError UInt64) := do
  match ← call url blockNumberMethod with
  | .ok result => return heightOf result
  | .error e => return .error e

end ChainRelay.Ethereum
