import ExecutionContext.Context.Start
import ExecutionContext.Script.Machine

/-!
# Trials of single structures

A trial takes one structure through a list of steps and reports on it after each.
The values that the steps mention live in a context that is never started. A step
that ends without an answer leaves the structure as it was, and the trial goes on.
-/

namespace ExecutionContext.Trial

open Script

variable {ε ι ρ σ : Type}

/-- How a step ended: with a report, or without an answer. -/
abbrev Outcome (ρ : Type) := Except (Exit Signal) ρ

/-- The context in which trials keep their values. -/
def bench : Context host :=
  Context.new {} .silent {}

def outcomes (step : σ -> ι -> Machine (ρ × σ)) :
    σ -> Context host -> List ι -> List (Outcome ρ)
  | _, _, [] => []
  | state, c, next :: rest =>
      match step state next c with
      | .ok (report, state) c => .ok report :: outcomes step state c rest
      | .error exit c => .error exit :: outcomes step state c rest

def run (step : σ -> ι -> Machine (ρ × σ)) (start : σ) (steps : List ι) : List (Outcome ρ) :=
  outcomes step start bench steps

def snapshot (value : Value) : Run ε host Shown := do
  let heap := (← get).heap
  numbering (showValue heap value)

def snapshots (values : List Value) : Run ε host Shown := do
  return .array (← values.mapM snapshot)

def snapshotOption (value : Option Value) : Run ε host Shown :=
  snapshots value.toList

def snapshotModule (module : Option (Ref .module)) : Run ε host Shown :=
  snapshot (moduleOrNil module)

def shownTexts (texts : List String) : Shown :=
  .array (texts.map .text)

def shownCount (count : Nat) : Shown :=
  .int (Int.ofNat count)

def keep (name : String) (value : Value) : Run ε host Unit :=
  modifyMemory fun m => { m with registers := m.registers.insert name value }

def kept (name : String) : Run ε host Value := do
  return ((← get).host.registers.get? name).getD .nil

def makeClass (name : String) (superclass : Option (Ref .module)) : Run ε host (Ref .module) :=
  modifyGet fun c =>
    let (cls, heap) := c.heap.newClass name superclass
    (cls, { c with heap := heap })

def makeModule (name : String) : Run ε host (Ref .module) :=
  modifyGet fun c =>
    let (module, heap) := c.heap.newModule name
    (module, { c with heap := heap })

end ExecutionContext.Trial
