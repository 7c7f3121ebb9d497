import Sequitur.Derivation.Basic
import Sequitur.Log.Record

/-!
# Sequitur.Program.Rendering

A derivation made in one go: requests are applied in order, each to the next
goal, up to the first one that fails.
-/

namespace Sequitur

/-- Why a request of a rendering fails. -/
inductive RenderingFault where
  | request (e : RequestError)
  | derivation (e : DerivationError)
deriving DecidableEq

/-- The message of a fault. -/
def RenderingFault.message : RenderingFault → String
  | request e => e.message
  | derivation e => e.message

/-- A request that failed: its number, counted from 1, its text, and why. -/
structure RenderingFailure where
  number : Nat
  line : Text
  fault : RenderingFault
deriving DecidableEq

/-- The message of a failure. -/
def RenderingFailure.message (f : RenderingFailure) : String :=
  "rule #" ++ toString f.number ++ " " ++ f.line.quoted ++ ": " ++ f.fault.message

/-- What requests lead to: a derivation, what is to be logged, and the
request that failed, if one did. -/
structure Rendering where
  derivation : Derivation
  records : List LogRecord
  failure : Option RenderingFailure

namespace Rendering

/-- The record of a request that was applied. -/
def record (r : Request) : LogRecord :=
  { level := .debug, message := Text.ofString "rule applied",
    attrs := [.ofString "request" r.toString] }

/-- Applies the request of a line to the next goal. -/
def applyLine (d : Derivation) (line : Text) : Except RenderingFault (Request × Derivation) :=
  match Request.parse line with
  | .error e => .error (.request e)
  | .ok r =>
    match d.proveNext r with
    | .error e => .error (.derivation e)
    | .ok d => .ok (r, d)

/-- Applies the requests of lines, `done` of which have been applied. -/
def follow (done : Nat) (d : Derivation) : List Text → Rendering
  | [] => { derivation := d, records := [], failure := none }
  | line :: rest =>
    match applyLine d line with
    | .error fault =>
      { derivation := d, records := [], failure := some { number := done + 1, line, fault } }
    | .ok (r, d) =>
      let after := follow (done + 1) d rest
      { after with records := record r :: after.records }

/-- Applies the requests of lines to a sequent. -/
def run (s : Sequent) (lines : List Text) : Rendering := follow 0 (.goal s) lines

end Rendering

end Sequitur
