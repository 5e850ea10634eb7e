/-! # Reports

A report tells what failed, and why, from the outermost reason to the root cause. -/

namespace ChainRelay

/-- A failure with its causes, the outermost first. -/
structure Report where
  message : String
  causes : List String
  deriving DecidableEq, Repr

namespace Report

/-- A failure without further causes. -/
def plain (message : String) : Report :=
  ⟨message, []⟩

/-- A failure that is caused by another. -/
def because (message : String) (cause : Report) : Report :=
  ⟨message, cause.message :: cause.causes⟩

/-- All messages, the outermost first. -/
def chain (r : Report) : List String :=
  r.message :: r.causes

/-- All messages on one line. -/
def line (r : Report) : String :=
  String.intercalate ": " r.chain

/-- Put spaces in front of every line but the first. -/
def indentLines (n : Nat) (s : String) : String :=
  String.intercalate ("\n" ++ String.ofList (List.replicate n ' ')) (s.splitOn "\n")

/-- The message, and the causes below it, numbered if there are several. -/
def paragraphs (r : Report) : String :=
  match r.causes with
  | [] => r.message
  | [cause] => r.message ++ "\n\nCaused by:\n    " ++ indentLines 4 cause
  | causes =>
    r.message ++ "\n\nCaused by:" ++
      String.join (causes.zipIdx.map fun (cause, n) =>
        let number := Nat.repr n
        let column := String.ofList (List.replicate (5 - number.length) ' ') ++ number
        "\n" ++ column ++ ": " ++ indentLines 7 cause)

end Report

end ChainRelay
