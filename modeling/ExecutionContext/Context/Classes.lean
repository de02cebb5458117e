import ExecutionContext.Context

/-!
# Classes of a context

Definitions go into the registry and become constants of `Object`. Before the
context is started there is no `Object`: asking for it then is a fault. A class
looks for `Object` before it is made, a module only when its constant is bound.
-/

namespace ExecutionContext

variable {H : Host} {ε : Type}

def coreClasses : Run ε H (Catalogue CoreClass) := fun c =>
  match c.core with
  | some core => .ok core c
  | none => .error (.fault .notStarted) c

def exceptionClasses : Run ε H (Catalogue ExceptionClass) := fun c =>
  match c.exceptions with
  | some exceptions => .ok exceptions c
  | none => .error (.fault .notStarted) c

def objectClass : Run ε H (Ref .module) := do
  return (← coreClasses).get .object

def setConstant (module : Ref .module) (name : String) (value : Value) : Run ε H Unit :=
  modify fun c => { c with heap := c.heap.setConstant module name value }

def defineConstant (name : String) (value : Value) : Run ε H Unit := do
  setConstant (← objectClass) name value

/-- Define a class, under `Object` unless a superclass is given. -/
def defineClass (name : String) (superclass : Option (Ref .module)) : Run ε H (Ref .module) := do
  let object ← objectClass
  let c ← get
  let (cls, registry, heap) := c.registry.defineClass c.heap name (some (superclass.getD object))
  set { c with registry := registry, heap := heap }
  setConstant object name (.module cls)
  return cls

def defineModule (name : String) : Run ε H (Ref .module) := do
  let c ← get
  let (module, registry, heap) := c.registry.defineModule c.heap name
  set { c with registry := registry, heap := heap }
  defineConstant name (.module module)
  return module

def Context.module? (c : Context H) (name : String) : Option (Ref .module) :=
  c.registry.get? name

def Context.class? (c : Context H) (name : String) : Option (Ref .module) :=
  c.registry.class? c.heap name

def Context.topConstant? (c : Context H) (name : String) : Option Value :=
  c.core.bind (fun core => c.heap.constant? (core.get .object) name)

/-- Define a class under the class registered by the given name. -/
def defineClassUnder (name superclass : String) : Run Failure H (Ref .module) := do
  match (← get).class? superclass with
  | some parent => defineClass name (some parent)
  | none => failWith (.unknownSuperclass superclass)

def classOf (value : Value) : Run ε H (Ref .module) := do
  let core ← coreClasses
  let c ← get
  match value with
  | .nil => return core.get .nilClass
  | .bool true => return core.get .trueClass
  | .bool false => return core.get .falseClass
  | .int _ => return core.get .integer
  | .float _ => return core.get .float
  | .text _ => return core.get .string
  | .array _ => return core.get .array
  | .object ref => return c.heap.objectClass ref
  | .module ref => return core.get (if c.heap.isClass ref then .cls else .module)

/-- The registered class of exceptions under which a failure surfaces. -/
def Context.exceptionClassOf? (c : Context H) (failure : Failure) : Option (Ref .module) :=
  c.class? failure.exceptionClass

end ExecutionContext
