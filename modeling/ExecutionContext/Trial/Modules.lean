import ExecutionContext.Trial.Steps

/-!
# Trials of modules

Steps on modules and namespaces kept under names, and on one registry.
-/

namespace ExecutionContext.Trial

open Script

/-- A step on modules. `place` is the name under which something is kept. -/
inductive ModuleStep where
  | newClass (place name : String) (superclass : Option String)
  | newModule (place name : String)
  | describe (place : String)
  | rename (place name : String)
  | inherits (place ancestor : String)
  | equal (a b : String)
  | setConstant (place constant : String) (v : Expr)
  | constant (place constant : String)
  | inheritedConstant (place constant : String)
  | constantNames (place : String)
  | newObject (place : String)
  | topNamespace (ns place : String)
  | childNamespace (ns place parent : String)
  | describeNamespace (ns : String)
  | setNamespaceModule (ns place : String)
  | namespaceConstant (ns constant : String)
  | register (name place : String)
  | registerClass (place name : String) (superclass : Option String)
  | registerModule (place name : String)
  | registered (name : String)
  | registry
  | isRegistered (name : String)
  | core
  | exceptions (place : String)

inductive ModuleResult where
  | shown (result : Shown)
  | listing (rows : List CatalogueRow)

def moduleAt (place : String) : Machine (Ref .module) := do
  asModule (← kept place)

def moduleAt? (place : Option String) : Machine (Option (Ref .module)) := do
  match place with
  | some place => return some (← moduleAt place)
  | none => return none

def keepModule (place : String) (module : Ref .module) : Machine Shown := do
  keep place (.module module)
  snapshot (.module module)

def namespaceAt (name : String) : Machine Namespace := do
  match ← slot Memory.namespaces name with
  | some ns => return ns
  | none => complain ("driver: no slot " ++ name)

def keepNamespace (name : String) (make : Levels -> Namespace × Levels) : Machine Shown := do
  let (ns, levels) := make (← get).levels
  modify fun c => { c with levels := levels }
  modifyMemory fun m => { m with namespaces := m.namespaces.insert name (some ns) }
  return .nil

/-- Make a registration, and answer with the size of the registry. -/
def registering (make : Registry -> Heap -> Ref .module × Registry × Heap) :
    Machine (Ref .module × Shown) := do
  let c ← get
  let (module, registry, heap) := make c.registry c.heap
  set { c with registry := registry, heap := heap }
  return (module, shownCount registry.size)

def changeModules : ModuleStep -> Machine Shown
  | .newClass place name superclass => do
      keepModule place (← makeClass name (← moduleAt? superclass))
  | .newModule place name => do keepModule place (← makeModule name)
  | .describe place => do
      let module ← moduleAt place
      let heap := (← get).heap
      let superclass ← snapshotModule (heap.superclass? module)
      return .array [.text (heap.moduleName module), .bool (heap.isClass module),
        .bool (heap.isClass module), superclass, .text (heap.inspectModule module)]
  | .rename place name => do
      let module ← moduleAt place
      modify fun c => { c with heap := c.heap.rename module name }
      return .nil
  | .inherits place ancestor => do
      let module ← moduleAt place
      let ancestor ← moduleAt ancestor
      return .bool ((← get).heap.inheritsFrom module ancestor)
  | .equal a b => do
      let a ← moduleAt a
      let b ← moduleAt b
      return .array (List.replicate 3 (.bool (decide (a = b))))
  | .setConstant place constant v => do
      let module ← moduleAt place
      let value ← evaluate {} v
      modify fun c => { c with heap := c.heap.setConstant module constant value }
      return .nil
  | .constant place constant => do
      let module ← moduleAt place
      snapshotOption ((← get).heap.constant? module constant)
  | .inheritedConstant place constant => do
      let module ← moduleAt place
      snapshotOption ((← get).heap.inheritedConstant? module constant)
  | .constantNames place => do
      let module ← moduleAt place
      return shownTexts ((← get).heap.constantNames module)
  | .newObject place => do
      let cls ← moduleAt place
      let object ← newObject cls
      let shown ← snapshot object
      let text := Shown.text (((← get).heap.display? object).getD "")
      return .array [shown, text, text]
  | .topNamespace ns place => do
      let module ← moduleAt place
      keepNamespace ns (fun levels => Namespace.top levels module)
  | .childNamespace ns place parent => do
      let module ← moduleAt place
      let parent ← namespaceAt parent
      keepNamespace ns (fun levels => parent.child levels module)
  | .describeNamespace ns => do
      let ns ← namespaceAt ns
      let levels := (← get).levels
      let parent ← snapshotModule (ns.parent?.map (·.module levels))
      let module ← snapshot (.module (ns.module levels))
      return .array [module, shownCount ns.depth, parent]
  | .setNamespaceModule ns place => do
      let ns ← namespaceAt ns
      let module ← moduleAt place
      modify fun c => { c with levels := ns.setModule c.levels module }
      return .nil
  | .namespaceConstant ns constant => do
      let ns ← namespaceAt ns
      let c ← get
      snapshotOption (ns.constant? c.levels c.heap constant)
  | .register name place => do
      let module ← moduleAt place
      let (_, size) ← registering (fun registry heap =>
        (module, registry.insert name module, heap))
      return size
  | .registerClass place name superclass => do
      let superclass ← moduleAt? superclass
      let (cls, size) ← registering (fun registry heap =>
        registry.defineClass heap name superclass)
      keep place (.module cls)
      return size
  | .registerModule place name => do
      let (module, size) ← registering (fun registry heap => registry.defineModule heap name)
      keep place (.module module)
      return size
  | .registered name => do snapshotModule ((← get).registry.get? name)
  | .registry => do
      let registry := (← get).registry
      return .array [shownTexts registry.names, shownCount registry.size,
        .bool (decide (registry.size = 0))]
  | .isRegistered name => do return .bool ((← get).registry.contains name)
  | .core | .exceptions _ => return .nil

def moduleStep (_ : Unit) (step : ModuleStep) : Machine (ModuleResult × Unit) := do
  match step with
  | .core =>
      let c ← get
      let (core, registry, heap) := Builtin.defineCore c.registry c.heap
      set { c with registry := registry, heap := heap }
      keep "Object" (.module (core.get .object))
      keep "Integer" (.module (core.get .integer))
      return (.listing (listCatalogue heap CoreClass.blueprint core), ())
  | .exceptions place =>
      let object ← moduleAt place
      let c ← get
      let (exceptions, registry, heap) := Builtin.defineExceptions object c.registry c.heap
      set { c with registry := registry, heap := heap }
      keep "NameError" (.module (exceptions.get .nameError))
      return (.listing (listCatalogue heap ExceptionClass.blueprint exceptions), ())
  | simple => do return (.shown (← changeModules simple), ())

end ExecutionContext.Trial
