import ExecutionContext.Context.Variables
import ExecutionContext.Value.Equality

/-!
# Calls and block activations

Six operations run code inside a changed context and give the context back on
every way out. A yield activates the block of the running call in the context that
the block captured; a call with a block attaches one to the next call; an iteration
is such a call whose block forwards to a callback; a method call, a module body and
a catch need no block.

A yield consumes `next`, `redo` and `return`; a method call consumes `return`; a
call with a block consumes `break` and `retry`, and an iteration `return` as well; a
catch consumes the throw of an equal tag. Everything else passes through.
-/

namespace ExecutionContext

variable {H : Host} {ε α : Type}

/-- How the host runs its code. `limit` bounds the passes through one block and the attempts at
one call. -/
structure Evaluator (H : Host) where
  limit : Nat
  /-- Run the code of a block on a receiver and arguments. -/
  runBody : H.Body -> Value -> List Value -> Run Signal H Value
  /-- Run the code of a callback on the packed arguments and a datum. -/
  runCallback : H.Body -> Value -> Value -> Run Signal H Value
  /-- Bind a value to a pattern, for a receiver, strictly or not. -/
  bind : Pattern -> Value -> Value -> Bool -> Run Failure H Unit

/-! ## Binding parameters -/

/-- Write the elements to the names in order; names beyond the elements get nil. -/
def bindNames : List String -> List Value -> Run ε H Unit
  | [], _ => return ()
  | name :: names, items => do
      setDynamic name (items.head?.getD .nil)
      bindNames names items.tail

/-- Bind a pattern as dynamic variables. Strictly, the elements must be as many as the names, or
at least as many when a further name takes the rest. -/
def bindDynamic (pattern : Pattern) (value : Value) (strict : Bool) : Run Failure H Unit := do
  match pattern with
  | .single name => setDynamic name value
  | .multiple names splat =>
      let items := (← get).heap.toArgs value
      let short := decide (items.length < names.length)
      let long := splat.isNone && decide (names.length < items.length)
      if strict && (short || long) then
        Run.raise { cause := .wrongArguments names.length items.length }
      else
        bindNames names items
        match splat with
        | some rest => setDynamic rest (← newArray (items.drop names.length))
        | none => return ()

/-- Strictly, an array of one element counts as that element. -/
def Heap.collapse (heap : Heap) (value : Value) (strict : Bool) : Value :=
  match strict, heap.items? value with
  | true, some [only] => only
  | _, _ => value

/-- Bind the parameters of a block, and answer with the value whose elements are its arguments. -/
def bindParams (eval : Evaluator H) (params : Params) (receiver value : Value) (strict : Bool) :
    Run Failure H Value := do
  let heap := (← get).heap
  match params with
  | .empty =>
      match strict, heap.items? value with
      | true, some (item :: items) =>
          Run.raise { cause := .wrongArguments 0 (item :: items).length }
      | _, _ => return value
  | .undeclared => return heap.collapse value strict
  | .pattern pattern =>
      let value :=
        match pattern with
        | .single _ => heap.collapse value strict
        | .multiple .. => value
      eval.bind pattern receiver value strict
      return value

/-- Record the backtrace of the place where a run failed. -/
def recordingBacktrace (run : Run Failure H α) : Run Failure H α := fun c =>
  match run c with
  | .error (.raised failure) c => .error (.raised (c.attach failure)) c
  | result => result

/-! ## Passes and attempts -/

/-- Run a block body: `redo` runs it again, `next` and `return` end it with an answer. -/
def passes (body : Run Signal H Value) : Nat -> Run Signal H Value
  | 0 => Run.exhausted
  | limit + 1 => fun c =>
      match body c with
      | .error (.raised .redo) c => passes body limit c
      | .error (.raised .next) c => .ok .nil c
      | .error (.raised (.returnWith value)) c => .ok value c
      | result => result

/-- Run a call: `retry` runs it again, and `finish` tells which signals end it with an answer. -/
def attempts (finish : Signal -> Option Value) (call : Run Signal H Value) :
    Nat -> Run Signal H Value
  | 0 => Run.exhausted
  | limit + 1 => fun c =>
      match call c with
      | .error (.raised .retry) c => attempts finish call limit c
      | .error (.raised signal) c =>
          match finish signal with
          | some value => .ok value c
          | none => .error (.raised signal) c
      | result => result

/-! ## Yielding to a block -/

/-- What an activation replaces and gives back. -/
structure Suspended where
  ns : Option Namespace
  scope : Ref .scope
  chain : Chain

/-- Take the active block off its stack and install the context it captured. -/
def enterBlock (cls : Option (Ref .module)) : Run ε H (Block H.Body × Suspended) := do
  let scope ← currentScope
  let c ← get
  let suspended : Suspended := { ns := c.ns, scope := scope, chain := c.chain }
  let block ← popBlock
  enterFrame block.frame
  modify fun c => { c with ns := (c.frameCells.read block.frame).ns.or block.ns }
  let _ ← setTopScope block.scope
  modify fun c =>
    let (chain, bindings) := block.chain.activate c.bindings
    { c with chain := chain, bindings := bindings }
  pushClass (cls.or block.cls)
  return (block, suspended)

/-- Undo `enterBlock`. -/
def leaveBlock (block : Block H.Body) (suspended : Suspended) : Run ε H Unit := do
  let _ ← popClass
  modify fun c => { c with chain := suspended.chain }
  pushBlock block
  let _ ← popFrame
  modify fun c => { c with ns := suspended.ns }
  let _ ← setTopScope suspended.scope
  return ()

def runCode (eval : Evaluator H) (code : Code H.Body) (receiver : Value) (args : List Value) :
    Run Signal H Value := do
  match code with
  | .body body => eval.runBody body receiver args
  | .callback body data => eval.runCallback body (← packArgs args) data

/-- Activate the block of the running call.

Without a value the block gets no arguments. With a class given, the body runs with that class
open, and on `receiver` if there is one; otherwise on the receiver that the block captured. -/
def yieldBlock (eval : Evaluator H) (value receiver : Option Value) (cls : Option (Ref .module))
    (strict : Bool) : Run Signal H Value := do
  let c ← get
  if !c.isBlockGiven || c.blocks.top?.isNone then
    Run.signalling (failWith .noBlockGiven)
  else
    let (block, suspended) ← enterBlock cls
    let self :=
      match cls, receiver with
      | some _, some value => value
      | _, _ => block.self
    let prepare : Run Signal H (List Value) := do
      let value ←
        match value with
        | some value => pure value
        | none => newArray []
      let bound ← Run.signalling
        (recordingBacktrace (bindParams eval block.params self value strict))
      return (← get).heap.toArgs bound
    let args ← prepare.unwinding (leaveBlock block suspended)
    pushMark block.mark
    (passes (runCode eval block.code self args) eval.limit).ensuring do
      let _ ← popMark
      leaveBlock block suspended

/-! ## Calls -/

/-- Run `call` with a block attached to the next method call. -/
def attachingBlock (block : Block H.Body) (call : Run Signal H Value) : Run Signal H Value := do
  pushMark .pending
  pushBlock block
  call.ensuring do
    let _ ← popBlock
    let _ ← popMark
    return ()

/-- The signals that end a call with a block, and its answer then. -/
def finishCall : Signal -> Option Value
  | .breakWith value => some value
  | _ => none

/-- Call with a block: `break` ends the call with its value, `retry` starts it again. -/
def callWithBlock (eval : Evaluator H) (block : Block H.Body) (call : Run Signal H Value) :
    Run Signal H Value :=
  attachingBlock block (attempts finishCall call eval.limit)

/-- The signals that end an iteration, and its answer then. -/
def finishIteration : Signal -> Option Value
  | .breakWith _ => some .nil
  | .returnWith value => some value
  | _ => none

/-- Run a driver on a datum, with a block attached that hands what is yielded, and a second datum,
to a callback. -/
def iterate (eval : Evaluator H) (driver : Value -> Run Signal H Value) (data1 : Value)
    (callback : H.Body) (data2 : Value) : Run Signal H Value := do
  let c ← get
  let block ← newBlockWithSelf .undeclared (.callback callback data2) c.topSelf
  attachingBlock block (attempts finishIteration (driver data1) eval.limit)

/-- End with the value of a `return`. -/
def catchingReturn (body : Run Signal H Value) : Run Signal H Value := fun c =>
  match body c with
  | .error (.raised (.returnWith value)) c => .ok value c
  | result => result

/-- Run a method body in a frame of its own. The frame counts as called with a block exactly when
a block was pushed for it. -/
def invoke (receiver : Value) (method : String) (body : Run Signal H Value) :
    Run Signal H Value := do
  Run.signalling checkDepth
  let mark := (← currentMark).forCallee
  pushMark mark
  let c ← get
  let _ ← openFrame { self := receiver, ns := c.ns, method := some method, mark := mark }
  (catchingReturn body).ensuring do
    let _ ← popFrame
    let _ ← popMark
    return ()

/-- Run the body of a class or module: on the module itself, with a scope of its own, the module
open, and a namespace inside the present one. -/
def openModule (module : Ref .module) (body : Run Signal H Value) : Run Signal H Value := do
  Run.signalling checkDepth
  let mark ← currentMark
  let c ← get
  let (inner, levels) :=
    match c.ns with
    | some parent => parent.child c.levels module
    | none => Namespace.top c.levels module
  set { c with levels := levels }
  let _ ← openFrame { self := .module module, ns := some inner, mark := mark }
  let _ ← pushScope (Scope.withLocals [])
  pushClass (some module)
  let outer ← setNamespace (some inner)
  body.ensuring do
    let _ ← setNamespace outer
    let _ ← popClass
    let _ ← popScope
    let _ ← popFrame
    return ()

/-- Run `body`, ending with the value of a throw whose tag equals `tag`. -/
def catchTag (tag : Value) (body : Run Signal H Value) : Run Signal H Value := fun c =>
  match body c with
  | .error (.raised (.throwTo thrown value)) c =>
      match c.heap.equal? thrown tag with
      | some true => .ok value c
      | some false => .error (.raised (.throwTo thrown value)) c
      | none => .error .exhausted c
  | result => result

end ExecutionContext
