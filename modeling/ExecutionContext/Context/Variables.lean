import ExecutionContext.Context

/-!
# Variables of a context

Locals live in the top scope, dynamic variables in the present chain, constants in
the modules of the present namespace, and globals in their table. Three global
names may stand for parts of the context itself: the safe level, and the two
special slots of the top scope. The safe level can be raised and never lowered.
-/

namespace ExecutionContext

variable {H : Host} {ε : Type}

/-! ## The heap -/

def newText (text : String) : Run ε H Value :=
  modifyGet fun c =>
    let (value, heap) := c.heap.newText text
    (value, { c with heap := heap })

def newTexts (texts : List String) : Run ε H (List Value) :=
  modifyGet fun c =>
    let (values, heap) := c.heap.newTexts texts
    (values, { c with heap := heap })

def newArray (items : List Value) : Run ε H Value :=
  modifyGet fun c =>
    let (value, heap) := c.heap.newArray items
    (value, { c with heap := heap })

def newObject (cls : Ref .module) : Run ε H Value :=
  modifyGet fun c =>
    let (value, heap) := c.heap.newObject cls
    (value, { c with heap := heap })

def packArgs (args : List Value) : Run ε H Value :=
  modifyGet fun c =>
    let (value, heap) := c.heap.fromArgs args
    (value, { c with heap := heap })

/-! ## Dynamic variables -/

def setDynamic (name : String) (value : Value) : Run ε H Unit :=
  modify fun c =>
    let (chain, bindings) := c.chain.set c.bindings name value
    { c with chain := chain, bindings := bindings }

def setChain (chain : Chain) : Run ε H Chain :=
  modifyGet fun c => (c.chain, { c with chain := chain })

/-! ## Locals -/

def modifyScope (change : Scope -> Scope) : Run ε H Unit := do
  let scope ← currentScope
  modify fun c => { c with scopeCells := c.scopeCells.modify scope change }

/-- A special slot of the top scope; nil without a scope or without locals. -/
def Context.specialSlot (c : Context H) (slot : Nat) : Value :=
  match c.scopes.top? with
  | some ref =>
      let scope := c.scopeCells.read ref
      if scope.hasValues then scope.get slot else .nil
  | none => .nil

def Context.lastLine (c : Context H) : Value :=
  c.specialSlot Scope.lastLineSlot

def Context.lastMatch (c : Context H) : Value :=
  c.specialSlot Scope.lastMatchSlot

/-- Write a special slot of the top scope, which gets its special slots first if need be. -/
def setSpecialSlot (slot : Nat) (value : Value) : Run ε H Unit :=
  modifyScope fun scope => (scope.ensureSpecial.set slot value).2

def setLastLine (value : Value) : Run ε H Unit :=
  setSpecialSlot Scope.lastLineSlot value

def setLastMatch (value : Value) : Run ε H Unit :=
  setSpecialSlot Scope.lastMatchSlot value

/-! ## Namespaces and constants -/

/-- Replace the namespace, and answer with the old one. -/
def setNamespace (ns : Option Namespace) : Run ε H (Option Namespace) :=
  modifyGet fun c => (c.ns, { c with ns := ns })

/-- The module of the current frame's namespace. -/
def Context.lexicalModule? (c : Context H) : Option (Ref .module) := do
  let frame ← c.frames.top?
  let ns ← (c.frameCells.read frame).ns
  return ns.module c.levels

/-- Replace the module of the current frame's namespace, for every holder of that namespace. A
frame without one gets an outermost one, and so does the context if it has none either. -/
def setLexicalModule (module : Ref .module) : Run ε H Unit := do
  let frame ← currentFrame
  let c ← get
  match (c.frameCells.read frame).ns with
  | some ns => set { c with levels := ns.setModule c.levels module }
  | none =>
      let (ns, levels) := Namespace.top c.levels module
      set { c with
        levels := levels
        frameCells := c.frameCells.modify frame (fun f => { f with ns := some ns })
        ns := c.ns.or (some ns) }

/-- The constant that a name stands for in the present namespace. -/
def Context.constant? (c : Context H) (name : String) : Option Value :=
  c.ns.bind (fun ns => ns.constant? c.levels c.heap name)

/-! ## The safe level -/

/-- Raise the safe level, to the highest one at most. -/
def setSafeLevel (level : Nat) : Run Failure H Unit := do
  let c ← get
  if level < c.safeLevel then
    failWith (.safeLevelLowered c.safeLevel level)
  else
    set { c with safeLevel := min level maxSafeLevel }

/-- Refuse an operation that is only allowed below the given level. -/
def secure (level : Nat) : Run Failure H Unit := do
  let c ← get
  if level ≤ c.safeLevel then
    let operation := c.frames.top?.bind (fun frame => (c.frameCells.read frame).method)
    failWith (.insecureOperation (operation.getD "") c.safeLevel)

/-! ## Globals -/

def Context.readSpecial (c : Context H) : SpecialGlobal -> Value
  | .safeLevel => .int (Int64.ofNat c.safeLevel)
  | .lastLine => c.lastLine
  | .lastMatch => c.lastMatch

/-- Write a special variable. The safe level takes integers not below itself; integers beyond its
range count as the highest level. -/
def writeSpecial (kind : SpecialGlobal) (value : Value) : Run Failure H Unit := do
  match kind with
  | .safeLevel =>
      let c ← get
      match value with
      | .int requested =>
          if requested.toInt < c.safeLevel then
            failWith (.safeLevelLowered c.safeLevel requested.toInt)
          else
            setSafeLevel (if requested.toInt ≤ 255 then requested.toInt.toNat else maxSafeLevel)
      | other => failWith (.safeLevelType other.typeName)
  | .lastLine => setLastLine value
  | .lastMatch => setLastMatch value

/-- Read a global; an unknown one is nil and is defined from then on. -/
def globalGet (name : String) : Run ε H Value := do
  let c ← get
  let (found, globals) := c.globals.get name
  set { c with globals := globals }
  match found with
  | .value value => return value
  | .special kind => return c.readSpecial kind

/-- Write a global, and answer with the value written. -/
def globalSet (name : String) (value : Value) : Run Failure H Value := do
  let c ← get
  match c.globals.set name value with
  | .error failure => Run.raise (c.attach failure)
  | .ok (outcome, globals) =>
      set { c with globals := globals }
      match outcome with
      | .stored => return value
      | .special kind =>
          writeSpecial kind value
          return value

/-- Let `new` share the storage of the global `old`; refused at the highest safe level. -/
def aliasGlobal (old new : String) : Run Failure H Unit := do
  let c ← get
  if maxSafeLevel ≤ c.safeLevel then
    failWith .insecureAlias
  else
    set { c with globals := c.globals.addAlias old new }

def defineGlobal (name : String) (value : Value) : Run ε H Unit :=
  modify fun c => { c with globals := (c.globals.definePlain name value).2 }

def defineVariable (var : Variable) : Run ε H Unit :=
  modify fun c => { c with globals := c.globals.define var }

def undefineGlobal (name : String) : Run ε H Bool :=
  modifyGet fun c =>
    let (found, globals) := c.globals.undefine name
    (found, { c with globals := globals })

end ExecutionContext
