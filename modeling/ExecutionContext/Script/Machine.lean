import ExecutionContext.Context.Activation
import ExecutionContext.Context.Classes
import ExecutionContext.Script.Command
import ExecutionContext.Script.Trace

/-!
# The machine that runs scripts

The machine is a context together with what scripts keep beside it: registers,
procedures, counters, named slots for blocks, scopes, frames, namespaces and chains,
and the trace with its numbering. Expressions are evaluated from left to right, and
every evaluation makes new texts, arrays and objects.
-/

namespace ExecutionContext.Script

/-- How block parameters are bound. -/
inductive Binder where
  /-- As dynamic variables. -/
  | dynamic
  /-- Not at all; what was to be bound is written to the dynamic variable `bound`. -/
  | record
  /-- Refuse every binding. -/
  | reject

/-- What scripts keep beside the context. -/
structure Memory where
  registers : Table Value := {}
  procedures : Table Body := {}
  counters : Table Int64 := {}
  blocks : Table (Block Body) := {}
  scopes : Table (Ref .scope) := {}
  frames : Table (Ref .frame) := {}
  namespaces : Table (Option Namespace) := {}
  chains : Table Chain := {}
  numbering : Numbering := {}
  trace : Array Entry := #[]
  /-- Whether commands are left out of the trace. -/
  quiet : Bool := false
  binder : Binder := .dynamic
  files : FileTree := {}
  /-- A list of directories to search, from outside the program. -/
  searchList : Option String := none
  processId : Int64 := 0

/-- The script language as a host of contexts. -/
abbrev host : Host := ⟨Body, Memory⟩

abbrev Machine (α : Type) := Run Signal host α

/-- What the body of a procedure, block or callback runs on. -/
structure Environment where
  args : List Value := []
  this : Value := .nil

variable {ε α : Type}

def modifyMemory (change : Memory -> Memory) : Run ε host Unit :=
  modify fun c => { c with host := change c.host }

/-- Fail with a message of the machine itself; no backtrace is recorded. -/
def complain (message : String) : Machine α :=
  Run.raise (.failure { cause := .raised message })

def slot (table : Memory -> Table α) (name : String) : Machine α := do
  match (table (← get).host).get? name with
  | some content => return content
  | none => complain ("driver: no slot " ++ name)

def asModule (value : Value) : Machine (Ref .module) := do
  match value with
  | .module module => return module
  | _ => complain "driver: not a module"

/-- Run something that numbers identities. -/
def numbering (run : StateM Numbering α) : Run ε host α := fun c =>
  let (a, numbering) := run c.host.numbering
  .ok a { c with host := { c.host with numbering := numbering } }

/-! ## Expressions -/

def tick (counter : String) : Run ε host Int64 :=
  modifyGet fun c =>
    let n := (c.host.counters.get? counter).getD 0 + 1
    (n, { c with host := { c.host with counters := c.host.counters.insert counter n } })

/-- Wrap a value again and again in an array of one element. -/
def wrap : Nat -> Value -> Run ε host Value
  | 0, value => return value
  | count + 1, value => do wrap count (← newArray [value])

def entryOf (heap : Heap) (array index : Value) : Value :=
  match index with
  | .int n => if 0 ≤ n.toInt then (heap.entry? array n.toInt.toNat).getD .nil else .nil
  | _ => .nil

mutual

def evaluate (env : Environment) : Expr -> Machine Value
  | .nil => return .nil
  | .bool b => return .bool b
  | .int n => return .int n
  | .float x => return .float x
  | .text s => newText s
  | .array items => do newArray (← evaluateAll env items)
  | .repeated count s => newText (String.join (List.replicate count s))
  | .filled count item => do newArray (List.replicate count (← evaluate env item))
  | .nested count item => do wrap count (← evaluate env item)
  | .register name => do return ((← get).host.registers.get? name).getD .nil
  | .arg index => return env.args.getD index .nil
  | .args => packArgs env.args
  | .this => return env.this
  | .self => do
      let frame ← currentFrame
      return ((← get).frameCells.read frame).self
  | .top => do return (← get).topSelf
  | .dynamic name => do
      let c ← get
      return (c.chain.get? c.bindings name).getD .nil
  | .slot name => do
      let scope ← currentScope
      return (((← get).scopeCells.read scope).lookup? name).getD .nil
  | .global name => globalGet name
  | .constant name => do return ((← get).constant? name).getD .nil
  | .module name => do
      match (← get).module? name with
      | some module => return .module module
      | none => return .nil
  | .new cls => do
      match ← evaluate env cls with
      | .module module => newObject module
      | _ => return .nil
  | .tick counter => do return .int (← tick counter)
  | .length array => do
      let value ← evaluate env array
      match (← get).heap.items? value with
      | some items => return .int (Int64.ofNat items.length)
      | none => return .nil
  | .add a b => do
      let x ← evaluate env a
      let y ← evaluate env b
      match x, y with
      | .int m, .int n => return .int (m + n)
      | _, _ => return .nil
  | .less a b => do
      let x ← evaluate env a
      let y ← evaluate env b
      match x, y with
      | .int m, .int n => return .bool (decide (m < n))
      | _, _ => return .bool false
  | .equal a b => do
      let x ← evaluate env a
      let y ← evaluate env b
      match (← get).heap.equal? x y with
      | some answer => return .bool answer
      | none => Run.exhausted
  | .same a b => do
      let x ← evaluate env a
      return .bool (x.same (← evaluate env b))
  | .entry array index => do
      let a ← evaluate env array
      let i ← evaluate env index
      return entryOf (← get).heap a i

def evaluateAll (env : Environment) : List Expr -> Machine (List Value)
  | [] => return []
  | e :: es => do
      let value ← evaluate env e
      return value :: (← evaluateAll env es)

end

def evaluateOption (env : Environment) : Option Expr -> Machine (Option Value)
  | some e => do return some (← evaluate env e)
  | none => return none

def evaluateModule (env : Environment) (e : Expr) : Machine (Ref .module) := do
  asModule (← evaluate env e)

/-- Evaluate an expression that stands for a module and may be missing. -/
def evaluateModuleOption (env : Environment) : Option Expr -> Machine (Option (Ref .module))
  | some e => do return some (← evaluateModule env e)
  | none => return none

def evaluateCause (env : Environment) : CauseExpr -> Machine Cause
  | .cause cause => return cause
  | .uncaughtThrow tag => do
      let value ← evaluate env tag
      match (← get).heap.display? value with
      | some text => return .uncaughtThrow text
      | none => Run.exhausted

def evaluateSignal (env : Environment) : SignalExpr -> Machine Signal
  | .failure cause => do return .failure { cause := ← evaluateCause env cause }
  | .breakWith value => do return .breakWith (← evaluate env value)
  | .next => return .next
  | .redo => return .redo
  | .retry => return .retry
  | .returnWith value => do return .returnWith (← evaluate env value)
  | .throwTo tag value => do
      let tag ← evaluate env tag
      return .throwTo tag (← evaluate env value)

/-! ## Answers -/

def textArray (texts : List String) : Run ε host Value := do
  newArray (← newTexts texts)

def optionArray (value : Option Value) : Run ε host Value :=
  newArray value.toList

def moduleOrNil (module : Option (Ref .module)) : Value :=
  match module with
  | some module => .module module
  | none => .nil

/-! ## The trace -/

def addEntry (label : String) (content : StateM Numbering Content) : Run ε host Unit := do
  if !(← get).host.quiet then
    let content ← numbering content
    let depths := depthsOf (← get)
    let entry : Entry := { label := label, content := content, depths := depths }
    modifyMemory fun m => { m with trace := m.trace.push entry }

/-- Run a command and add the entry for its end. A fault leaves no entry. -/
def recorded (label : String) (command : Machine Value) : Machine Value := fun c =>
  match command c with
  | .ok value c =>
      (do
        addEntry label (do return .result (.answer (← showValue c.heap value)))
        return value : Machine Value) c
  | .error (.raised signal) c =>
      (do
        addEntry label (do return .result (← showSignal c.heap signal))
        Run.raise signal : Machine Value) c
  | .error exit c => .error exit c

/-! ## Binding parameters -/

/-- A pattern as a value: its name, or its names and the name for the rest. -/
def patternValue : Pattern -> Run ε host Value
  | .single name => newText name
  | .multiple names splat => do
      let names ← textArray names
      let splat ← textArray splat.toList
      newArray [names, splat]

/-- Bind a pattern in the way the machine was told to. -/
def bindPattern (pattern : Pattern) (receiver value : Value) (strict : Bool) :
    Run Failure host Unit := do
  match (← get).host.binder with
  | .dynamic => bindDynamic pattern value strict
  | .record => do
      let shown ← patternValue pattern
      setDynamic "bound" (← newArray [shown, receiver, value, .bool strict])
  | .reject => Run.raise { cause := .raised "rejected" }

end ExecutionContext.Script
