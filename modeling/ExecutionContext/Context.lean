import ExecutionContext.Block
import ExecutionContext.Builtin
import ExecutionContext.Globals
import ExecutionContext.OpenClass
import ExecutionContext.Scope
import ExecutionContext.Settings
import ExecutionContext.Signal

/-!
# The execution context and runs over it

The context is everything that evaluation needs besides the code it evaluates: the
stacks of frames, scopes, blocks and attachment marks, the open class, the chain of
dynamic variables, the current namespace, the globals, the registry, and the cells
behind every identity. A run transforms a context and ends with an answer or with
an `Exit`; either way the context it left behind is part of the result.

The evaluator that drives a context brings its own type of code, `Body`, and its
own state, which travels along untouched.

What no operation reads back is left out: the trace of events that is logged, and the
guard that moves deep recursion to another part of the machine's stack.
-/

namespace ExecutionContext

/-- What an evaluator brings along: its code, and its own state. -/
structure Host where
  Body : Type
  State : Type

/-- One execution context. -/
structure Context (H : Host) where
  config : Config
  started : Bool := false
  safeLevel : Nat := 0
  frames : Stack (Ref .frame) := { name := "frame" }
  scopes : Stack (Ref .scope) := { name := "scope" }
  blocks : Stack (Block H.Body) := { name := "block" }
  marks : Stack Attachment := { name := "iterator" }
  classes : OpenClass (Ref .module) := {}
  chain : Chain := []
  ns : Option Namespace := none
  globals : Globals := {}
  registry : Registry := {}
  core : Option (Catalogue CoreClass) := none
  exceptions : Option (Catalogue ExceptionClass) := none
  topSelf : Value := .nil
  topFrame : Option (Ref .frame) := none
  topScope : Option (Ref .scope) := none
  topNamespace : Option Namespace := none
  visibility : Visibility := .anyone
  wrapper : Option (Ref .module) := none
  sourceFile : String := ""
  sourceLine : Nat := 0
  evalDepth : Nat := 0
  errors : ErrorStream := .console
  heap : Heap := {}
  frameCells : Arena .frame Frame := {}
  scopeCells : Arena .scope Scope := {}
  levels : Levels := {}
  bindings : Bindings := {}
  blockCount : Nat := 0
  host : H.State

/-- A run over a context: it may raise an `ε`, break the stack discipline, or meet a bound. -/
abbrev Run (ε : Type) (H : Host) (α : Type) :=
  EStateM (Exit ε) (Context H) α

variable {H : Host} {ε α : Type}

namespace Run

def raise (signal : ε) : Run ε H α :=
  EStateM.throw (.raised signal)

/-- End a run that met its bound. -/
def exhausted : Run ε H α :=
  EStateM.throw .exhausted

/-- The answer of a computation that may break the stack discipline. -/
def ofFault (answer : Except Fault α) : Run ε H α := fun c =>
  match answer with
  | .ok a => .ok a c
  | .error fault => .error (.fault fault) c

/-- A run that can only fail, as a run that can raise any signal. -/
def signalling (run : Run Failure H α) : Run Signal H α := fun c =>
  match run c with
  | .ok a c => .ok a c
  | .error (.raised failure) c => .error (.raised (.failure failure)) c
  | .error (.fault fault) c => .error (.fault fault) c
  | .error .exhausted c => .error .exhausted c

/-- Run `body`, and then `restore` in whatever way `body` ended. When `restore` breaks the stack
discipline, that is how the whole ends. -/
def ensuring (body : Run ε H α) (restore : Run ε H Unit) : Run ε H α := fun c =>
  match body c with
  | .ok a c =>
      match restore c with
      | .ok _ c => .ok a c
      | .error exit c => .error exit c
  | .error exit c =>
      match restore c with
      | .ok _ c => .error exit c
      | .error other c => .error other c

/-- Run `body`, and then `restore` unless `body` ended with an answer. -/
def unwinding (body : Run ε H α) (restore : Run ε H Unit) : Run ε H α := fun c =>
  match body c with
  | .ok a c => .ok a c
  | .error exit c =>
      match restore c with
      | .ok _ c => .error exit c
      | .error other c => .error other c

end Run

namespace Context

/-- The frames' names, innermost first. -/
def backtrace (c : Context H) : Backtrace :=
  c.frames.entries.map (fun frame => (c.frameCells.read frame).displayName)

/-- Record the present backtrace in a failure that has none. -/
def attach (c : Context H) (failure : Failure) : Failure :=
  failure.attach c.backtrace

/-- Whether the running method was called with a block. -/
def isBlockGiven (c : Context H) : Bool :=
  c.frames.top?.any (fun frame => decide ((c.frameCells.read frame).mark ≠ .absent))

/-- Whether the caller of the running method was called with a block. -/
def isCallerBlockGiven (c : Context H) : Bool :=
  c.frames.previous?.any (fun frame => decide ((c.frameCells.read frame).mark ≠ .absent))

end Context

/-! ## Stack operations -/

/-- Fail for the given cause, at the present backtrace. -/
def failWith (cause : Cause) : Run Failure H α := fun c =>
  .error (.raised (c.attach { cause := cause })) c

def currentFrame : Run ε H (Ref .frame) := do
  Run.ofFault (← get).frames.current

def currentScope : Run ε H (Ref .scope) := do
  Run.ofFault (← get).scopes.current

def currentMark : Run ε H Attachment := do
  Run.ofFault (← get).marks.current

def pushMark (mark : Attachment) : Run ε H Unit :=
  modify fun c => { c with marks := c.marks.push mark }

def popMark : Run ε H Attachment := do
  let c ← get
  let (mark, marks) ← Run.ofFault c.marks.pop
  set { c with marks := marks }
  return mark

def pushBlock (block : Block H.Body) : Run ε H Unit :=
  modify fun c => { c with blocks := c.blocks.push block }

def popBlock : Run ε H (Block H.Body) := do
  let c ← get
  let (block, blocks) ← Run.ofFault c.blocks.pop
  set { c with blocks := blocks }
  return block

def pushClass (cls : Option (Ref .module)) : Run ε H Unit :=
  modify fun c => { c with classes := c.classes.push cls }

/-- Close the open class, and answer with it. -/
def popClass : Run ε H (Option (Ref .module)) := do
  let c ← get
  let (cls, classes) ← Run.ofFault c.classes.pop
  set { c with classes := classes }
  return cls

/-- Replace the open class, and answer with the old one. -/
def setClass (cls : Option (Ref .module)) : Run ε H (Option (Ref .module)) := do
  let c ← get
  let (old, classes) := c.classes.setCurrent cls
  set { c with classes := classes }
  return old

def pushScope (scope : Scope) : Run ε H (Ref .scope) := do
  let c ← get
  let (ref, cells) := c.scopeCells.alloc scope
  set { c with scopeCells := cells, scopes := c.scopes.push ref }
  return ref

def popScope : Run ε H (Ref .scope) := do
  let c ← get
  let (ref, scopes) ← Run.ofFault c.scopes.pop
  set { c with scopes := scopes }
  return ref

def setTopScope (scope : Ref .scope) : Run ε H (Ref .scope) := do
  let c ← get
  let (old, scopes) ← Run.ofFault (c.scopes.setTop scope)
  set { c with scopes := scopes }
  return old

/-- Put an existing frame on top. -/
def enterFrame (frame : Ref .frame) : Run ε H Unit :=
  modify fun c => { c with frames := c.frames.push frame }

def popFrame : Run ε H (Ref .frame) := do
  let c ← get
  let (ref, frames) ← Run.ofFault c.frames.pop
  set { c with frames := frames }
  return ref

/-- Make a frame and put it on top. -/
def openFrame (frame : Frame) : Run ε H (Ref .frame) := do
  let c ← get
  let (ref, cells) := c.frameCells.alloc frame
  set { c with frameCells := cells, frames := c.frames.push ref }
  return ref

/-- Fail when one more frame would exceed the limit. -/
def checkDepth : Run Failure H Unit := do
  let c ← get
  match c.config.maxCallDepth with
  | some limit => if limit ≤ c.frames.depth then failWith (.depthExceeded limit)
  | none => return ()

/-- Push a frame for a call on `receiver`; it inherits the namespace and the top mark. -/
def pushFrame (receiver : Value) (method : Option String) : Run Failure H (Ref .frame) := do
  checkDepth
  let mark ← currentMark
  let c ← get
  openFrame { self := receiver, ns := c.ns, method := method, mark := mark }

/-! ## Blocks over the present context -/

/-- Capture a block with an explicit receiver. -/
def newBlockWithSelf (params : Params) (code : Code H.Body) (receiver : Value) :
    Run ε H (Block H.Body) := do
  let frame ← currentFrame
  let scope ← currentScope
  let mark ← currentMark
  let c ← get
  set { c with blockCount := c.blockCount + 1 }
  return {
    id := ⟨c.blockCount⟩
    params := params
    code := code
    self := receiver
    frame := frame
    scope := scope
    ns := c.ns
    cls := c.classes.current
    chain := c.chain
    mark := mark }

/-- Capture a block whose receiver is the current frame's self. -/
def newBlock (params : Params) (code : Code H.Body) : Run ε H (Block H.Body) := do
  let c ← get
  let receiver := (c.frames.top?.map (fun frame => (c.frameCells.read frame).self)).getD .nil
  newBlockWithSelf params code receiver

end ExecutionContext
