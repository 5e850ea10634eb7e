import ChainRelay.Effects.Program
import ChainRelay.Report

/-! # Attempts

A program that may fail with a report. -/

namespace ChainRelay

/-- A program that ends with a result or a report. -/
abbrev Attempt := ExceptT Report Program

namespace Attempt

/-- Fail with a report. -/
def fail (r : Report) : Attempt α :=
  throw r

/-- The attempt of a program whose failures are reported. -/
def ofProgram (report : ε → Report) (p : Program (Except ε α)) : Attempt α :=
  ExceptT.mk do
    match ← p with
    | .ok a => return .ok a
    | .error e => return .error (report e)

/-- The attempt of a result whose failure is reported. -/
def ofExcept (report : ε → Report) (r : Except ε α) : Attempt α :=
  ofProgram report (pure r)

/-- The value, or a failure. -/
def ofOption (message : String) (a : Option α) : Attempt α :=
  match a with
  | some a => pure a
  | none => fail (.plain message)

/-- The report of a program that was asked to stop. -/
def cancelled : Report :=
  .plain "command cancelled"

/-- Make an attempt unless the program is asked to stop first. -/
def untilCancelled (a : Attempt α) : Attempt α :=
  ExceptT.mk do
    match ← Program.untilCancelled a.run with
    | some r => return r
    | none => return .error cancelled

end Attempt

end ChainRelay
