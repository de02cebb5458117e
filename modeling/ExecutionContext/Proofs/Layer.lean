import ExecutionContext.Proofs.Discipline
import ExecutionContext.Proofs.Meaning

/-! # The six operations as layers around the code they run

A layer opens by installing its part of the context, runs its code as often as its
rule asks for, and closes by undoing the opening. The equations below say of each
operation what its opening installs, and that its closing gives the caller's stacks
back as they were, provided that the code in between kept the stacks it was given.
-/

namespace ExecutionContext

variable {H : Host}

/-- One of the six operations, less the code that it runs. -/
inductive Layer (H : Host) where
  | yield (value receiver : Option Value) (cls : Option (Ref .module)) (strict : Bool)
  | iterate (callback : H.Body) (data : Value)
  | withBlock (block : Block H.Body)
  | invoke (receiver : Value) (method : String)
  | openModule (module : Ref .module)
  | catchTag (tag : Value)

/-- The operation with `code` as the code it runs: the driver of an iteration on its datum, the
call, or the body of the method, module or catch. A yield runs the body of a block instead. -/
def Layer.around (eval : Evaluator H) (code : Run Signal H Value) :
    Layer H -> Run Signal H Value
  | .yield value receiver cls strict => yieldBlock eval value receiver cls strict
  | .iterate callback data => ExecutionContext.iterate eval (fun _ => code) .nil callback data
  | .withBlock block => callWithBlock eval block code
  | .invoke receiver method => ExecutionContext.invoke receiver method code
  | .openModule module => ExecutionContext.openModule module code
  | .catchTag tag => ExecutionContext.catchTag tag code

namespace Layer

def rule : Layer H -> Rule
  | .yield .. => Rule.block
  | .iterate .. => Rule.iteration
  | .withBlock _ => Rule.call
  | .invoke .. => Rule.method
  | .openModule _ => Rule.moduleBody
  | .catchTag tag => Rule.catching tag

def rounds (code : Run Signal H Value) (limit : Nat) : Layer H -> Run Signal H Value
  | .yield .. => passes code limit
  | .iterate .. => attempts finishIteration code limit
  | .withBlock _ => attempts finishCall code limit
  | .invoke .. => catchingReturn code
  | .openModule _ => code
  | .catchTag tag => ExecutionContext.catchTag tag code

theorem rounds_succ (l : Layer H) (code : Run Signal H Value) (limit : Nat) (c : Context H) :
    l.rounds code (limit + 1) c = l.rule.settle (l.rounds code limit) (code c) := by
  cases l with
  | yield _ _ _ _ => exact passes_succ code limit c
  | iterate _ _ => exact attempts_succ_iteration code limit c
  | withBlock _ => exact attempts_succ_call code limit c
  | invoke _ _ => exact catchingReturn_eq_settle code _ c
  | openModule _ => exact (settle_moduleBody _ _).symm
  | catchTag tag => exact catchTag_eq_settle tag code _ c

theorem rounds_keeps {K : Contract H} {code : Run Signal H Value} (h : code.Keeps K)
    (limit : Nat) (l : Layer H) : (l.rounds code limit).Keeps K := by
  cases l with
  | yield _ _ _ _ => exact h.passes limit
  | iterate _ _ => exact h.attempts_iteration limit
  | withBlock _ => exact h.attempts_call limit
  | invoke _ _ => exact h.catchingReturn
  | openModule _ => exact h
  | catchTag tag => exact h.catchTag tag

end Layer

/-! ## Yielding in three steps -/

/-- An activation under way: the block, what it suspended, and what its body runs on. -/
structure Activation (H : Host) where
  block : Block H.Body
  suspended : Suspended
  self : Value
  args : List Value

/-- The receiver of a block's body: the one given, when a class is given too, and otherwise the
one that the block captured. -/
def Block.receiverFor {β : Type} (block : Block β) (receiver : Option Value)
    (cls : Option (Ref .module)) : Value :=
  match cls, receiver with
  | some _, some value => value
  | _, _ => block.self

/-- Bind the yielded value inside the activation, and answer with the arguments. -/
def prepareArgs (eval : Evaluator H) (block : Block H.Body) (self : Value) (value : Option Value)
    (strict : Bool) : Run Signal H (List Value) := do
  let value ←
    match value with
    | some value => pure value
    | none => newArray []
  let bound ← Run.signalling (recordingBacktrace (bindParams eval block.params self value strict))
  return (← get).heap.toArgs bound

/-- Activate the block of the running call, up to the first pass through its body. -/
def beginYield (eval : Evaluator H) (value receiver : Option Value) (cls : Option (Ref .module))
    (strict : Bool) : Run Signal H (Activation H) := do
  let c ← get
  if !c.isBlockGiven || c.blocks.top?.isNone then
    Run.signalling (failWith .noBlockGiven)
  else
    let (block, suspended) ← enterBlock cls
    let self := block.receiverFor receiver cls
    let args ← (prepareArgs eval block self value strict).unwinding (leaveBlock block suspended)
    pushMark block.mark
    return { block := block, suspended := suspended, self := self, args := args }

def Activation.body (eval : Evaluator H) (a : Activation H) : Run Signal H Value :=
  runCode eval a.block.code a.self a.args

def Activation.finish (a : Activation H) : Run Signal H Unit := do
  let _ ← popMark
  leaveBlock a.block a.suspended

theorem yieldBlock_eq_begin (eval : Evaluator H) (value receiver : Option Value)
    (cls : Option (Ref .module)) (strict : Bool) :
    yieldBlock eval value receiver cls strict = (do
      let a ← beginYield eval value receiver cls strict
      (passes (a.body eval) eval.limit).ensuring a.finish) := by
  unfold yieldBlock beginYield
  simp only [bind_assoc]
  congr 1
  funext c
  split
  · rfl
  · simp only [bind_assoc, pure_bind]
    rfl

/-! ## Openings and closings -/

def detachBlock : Run Signal H Unit := do
  let _ ← popBlock
  let _ ← popMark
  return ()

def leaveFrame : Run Signal H Unit := do
  let _ ← popFrame
  let _ ← popMark
  return ()

def leaveModule (outer : Option Namespace) : Run Signal H Unit := do
  let _ ← setNamespace outer
  let _ ← popClass
  let _ ← popScope
  let _ ← popFrame
  return ()

/-- The namespace of a module opened in a context, and the levels with it. -/
def Context.innerNamespace (c : Context H) (module : Ref .module) : Namespace × Levels :=
  match c.ns with
  | some parent => parent.child c.levels module
  | none => Namespace.top c.levels module

namespace Layer

/-- Install the layer's part of the context, and answer with the run that undoes it. -/
def opening (eval : Evaluator H) : Layer H -> Run Signal H (Run Signal H Unit)
  | .yield value receiver cls strict => do
      let a ← beginYield eval value receiver cls strict
      return a.finish
  | .iterate callback data => do
      let c ← get
      let block ← newBlockWithSelf .undeclared (.callback callback data) c.topSelf
      pushMark .pending
      pushBlock block
      return detachBlock
  | .withBlock block => do
      pushMark .pending
      pushBlock block
      return detachBlock
  | .invoke receiver method => do
      Run.signalling checkDepth
      let mark := (← currentMark).forCallee
      pushMark mark
      let c ← get
      let _ ← openFrame { self := receiver, ns := c.ns, method := some method, mark := mark }
      return leaveFrame
  | .openModule module => do
      Run.signalling checkDepth
      let mark ← currentMark
      let c ← get
      let (inner, levels) := c.innerNamespace module
      set { c with levels := levels }
      let _ ← openFrame { self := .module module, ns := some inner, mark := mark }
      let _ ← pushScope (Scope.withLocals [])
      pushClass (some module)
      let outer ← setNamespace (some inner)
      return leaveModule outer
  | .catchTag _ => return (return ())

/-- The code that the operation runs from a context: the one given, and for a yield the body of the
block that it activates. -/
def codeAt (eval : Evaluator H) (code : Run Signal H Value) (c : Context H) :
    Layer H -> Run Signal H Value
  | .yield value receiver cls strict =>
      match beginYield eval value receiver cls strict c with
      | .ok a _ => a.body eval
      | .error _ _ => code
  | _ => code

/-- Every operation opens its layer, runs its code, and closes the layer in whatever way the code
ended. -/
theorem around_eq (eval : Evaluator H) (code : Run Signal H Value) (l : Layer H) (c : Context H) :
    l.around eval code c = (do
      let close ← l.opening eval
      (l.rounds (l.codeAt eval code c) eval.limit).ensuring close : Run Signal H Value) c := by
  cases l with
  | yield value receiver cls strict =>
      simp only [around, opening, codeAt, yieldBlock_eq_begin, bind_assoc, pure_bind]
      cases h : beginYield eval value receiver cls strict c with
      | ok a d => rw [Run.bind_of_ok h, Run.bind_of_ok h]; rfl
      | error exit d => rw [Run.bind_of_error h, Run.bind_of_error h]
  | iterate callback data =>
      simp only [opening, bind_assoc, pure_bind]
      rfl
  | withBlock block =>
      simp only [opening, bind_assoc, pure_bind]
      rfl
  | invoke receiver method =>
      simp only [opening, bind_assoc, pure_bind]
      rfl
  | openModule module =>
      simp only [opening, bind_assoc, pure_bind]
      rfl
  | catchTag tag =>
      simp only [opening, pure_bind, around, rounds, codeAt]
      unfold Run.ensuring
      cases ExecutionContext.catchTag tag code c <;> rfl

end Layer

/-! ## The smallest host -/

/-- A host with one piece of code and no state. -/
abbrev Bare : Host :=
  { Body := Unit, State := Unit }

/-- A started context of the smallest host. -/
def Context.bare : Context Bare :=
  (Context.new {} .silent ()).start 0

theorem Context.based_bare : Context.bare.Based :=
  based_start rfl rfl 0

def Evaluator.raising (signal : Signal) : Evaluator Bare where
  limit := 1
  runBody := fun _ _ _ => Run.raise signal
  runCallback := fun _ _ _ => Run.raise signal
  bind := fun _ _ _ _ => return ()

end ExecutionContext
