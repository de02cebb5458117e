import ExecutionContext.Trial.Steps

/-!
# Trials of stacks

Steps on a stack of numbers, beside which a copy can be kept and exchanged with it,
steps on the open class, and steps on an error stream.
-/

namespace ExecutionContext.Trial

open Script

/-! ## Stacks of numbers -/

inductive StackStep where
  /-- Begin anew with an empty stack of that name. -/
  | fresh (name : String)
  | push (n : Int64)
  | pop
  | top
  | current
  | previous
  | setTop (n : Int64)
  | isEmpty
  | sealBase
  /-- Keep a copy. -/
  | save
  /-- Exchange the stack with the copy. -/
  | swap
  /-- Leave everything as it is. -/
  | rest

structure StackPair where
  stack : Stack Int64 := { name := "test" }
  saved : Stack Int64 := { name := "test" }

structure StackReport where
  result : Shown
  entries : List Int64

def shownNumber (n : Option Int64) : Shown :=
  match n with
  | some n => .int n.toInt
  | none => .nil

def stackChange (stack : Stack Int64) : StackStep -> Except Fault (Shown × Stack Int64)
  | .fresh name => .ok (.nil, { name := name })
  | .push n => .ok (.nil, stack.push n)
  | .pop => do
      let (entry, stack) ← stack.pop
      return (.int entry.toInt, stack)
  | .top => .ok (shownNumber stack.top?, stack)
  | .current => do
      let entry ← stack.current
      return (.int entry.toInt, stack)
  | .previous => .ok (shownNumber stack.previous?, stack)
  | .setTop n => do
      let (old, stack) ← stack.setTop n
      return (.int old.toInt, stack)
  | .isEmpty => .ok (.bool stack.isEmpty, stack)
  | .sealBase => .ok (.nil, stack.sealBase)
  | .save | .swap | .rest => .ok (.nil, stack)

def stackStep (pair : StackPair) (step : StackStep) : Machine (StackReport × StackPair) := do
  let (result, stack) ← Run.ofFault (stackChange pair.stack step)
  let pair : StackPair :=
    match step with
    | .save => { stack := stack, saved := stack }
    | .swap => { stack := pair.saved, saved := stack }
    | _ => { pair with stack := stack }
  return ({ result := result, entries := pair.stack.entries.reverse }, pair)

/-! ## The open class -/

/-- A step on the open class; a name stands for a class made when it is first used. -/
inductive ClassStep where
  | push (name : Option String)
  | pop
  | setCurrent (name : Option String)
  | current

structure ClassReport where
  result : Shown
  depth : Nat
  current : Shown

def classNamed (name : String) : Machine (Ref .module) := do
  match (← kept name).asModule? with
  | some cls => return cls
  | none =>
      let cls ← makeClass name none
      keep name (.module cls)
      return cls

def classNamed? (name : Option String) : Machine (Option (Ref .module)) := do
  match name with
  | some name => return some (← classNamed name)
  | none => return none

def classStep (classes : OpenClass (Ref .module)) (step : ClassStep) :
    Machine (ClassReport × OpenClass (Ref .module)) := do
  let (result, classes) ←
    match step with
    | .push name => do pure (none, classes.push (← classNamed? name))
    | .pop => Run.ofFault classes.pop
    | .setCurrent name => do pure (classes.setCurrent (← classNamed? name))
    | .current => pure (classes.current, classes)
  let result ← snapshotModule result
  let current ← snapshotModule classes.current
  return ({ result := result, depth := classes.depth, current := current }, classes)

/-! ## Error streams -/

inductive StreamStep where
  /-- Begin anew with an empty buffer. -/
  | buffer
  /-- Begin anew with a silent stream. -/
  | silent
  | println (line : String)
  | clear
  /-- Write to a buffer of its own and clear that. -/
  | aside (line : String)

/-- Take one step on a stream, and answer with what it has captured. -/
def streamStep (stream : ErrorStream) (step : StreamStep) : Machine (Shown × ErrorStream) := do
  let stream :=
    match step with
    | .buffer => .buffer ""
    | .silent => .silent
    | .println line => stream.println line
    | .clear => stream.clear
    | .aside _ => stream
  match step with
  | .aside line =>
      let buffer := (ErrorStream.buffer "").println line
      return (shownTexts [buffer.output, buffer.clear.output], stream)
  | _ => return (.text stream.output, stream)

end ExecutionContext.Trial
