import ExecutionContext.Value

/-!
# Classes and modules

A module has a name that may change, a table of constants of its own, and, if it
is a class, a chain of superclasses that is fixed when it is made. Because a
superclass must exist before its subclasses, the chain is stored whole and every
walk along it ends. A constant is looked up on the module first and then along
the chain.
-/

namespace ExecutionContext

namespace Heap

def module (heap : Heap) (ref : Ref .module) : Module :=
  heap.modules.read ref

/-- A new class; only the root class has no superclass. -/
def newClass (heap : Heap) (name : String) (superclass : Option (Ref .module)) :
    Ref .module × Heap :=
  let ancestors :=
    match superclass with
    | some parent => parent :: (heap.module parent).ancestors
    | none => []
  let (ref, modules) :=
    heap.modules.alloc { name := name, isClass := true, ancestors := ancestors }
  (ref, { heap with modules := modules })

def newModule (heap : Heap) (name : String) : Ref .module × Heap :=
  let (ref, modules) := heap.modules.alloc { name := name, isClass := false }
  (ref, { heap with modules := modules })

def moduleName (heap : Heap) (ref : Ref .module) : String :=
  (heap.module ref).name

def isClass (heap : Heap) (ref : Ref .module) : Bool :=
  (heap.module ref).isClass

def superclass? (heap : Heap) (ref : Ref .module) : Option (Ref .module) :=
  (heap.module ref).ancestors.head?

def rename (heap : Heap) (ref : Ref .module) (name : String) : Heap :=
  { heap with modules := heap.modules.modify ref (fun m => { m with name := name }) }

/-- Whether `ancestor` is the module itself or one of its superclasses. -/
def inheritsFrom (heap : Heap) (ref ancestor : Ref .module) : Bool :=
  decide (ancestor ∈ ref :: (heap.module ref).ancestors)

def setConstant (heap : Heap) (ref : Ref .module) (name : String) (value : Value) : Heap :=
  { heap with
    modules := heap.modules.modify ref
      (fun m => { m with constants := m.constants.insert name value }) }

def constant? (heap : Heap) (ref : Ref .module) (name : String) : Option Value :=
  (heap.module ref).constants.get? name

/-- A constant of the module or of the nearest superclass that has it. -/
def inheritedConstant? (heap : Heap) (ref : Ref .module) (name : String) : Option Value :=
  (ref :: (heap.module ref).ancestors).findSome? (fun m => heap.constant? m name)

/-- The names of the module's own constants, sorted. -/
def constantNames (heap : Heap) (ref : Ref .module) : List String :=
  (heap.module ref).constants.names

def objectClass (heap : Heap) (ref : Ref .object) : Ref .module :=
  heap.objects.read ref

end Heap

end ExecutionContext
