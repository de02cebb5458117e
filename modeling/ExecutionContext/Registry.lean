import ExecutionContext.Module

/-!
# The registry of classes and modules

The registry binds names to the classes and modules defined under them. A
catalogue is a set of built-in ones, defined together by a plan in which every
superclass comes before its subclasses; it keeps their identities, whatever the
registry later says about their names.
-/

namespace ExecutionContext

/-- Classes and modules by the name they were defined under. -/
abbrev Registry := Table (Ref .module)

namespace Registry

def defineClass (registry : Registry) (heap : Heap) (name : String)
    (superclass : Option (Ref .module)) : Ref .module × Registry × Heap :=
  let (cls, heap) := heap.newClass name superclass
  (cls, registry.insert name cls, heap)

def defineModule (registry : Registry) (heap : Heap) (name : String) :
    Ref .module × Registry × Heap :=
  let (module, heap) := heap.newModule name
  (module, registry.insert name module, heap)

/-- The registered class of that name; plain modules do not count. -/
def class? (registry : Registry) (heap : Heap) (name : String) : Option (Ref .module) :=
  (registry.get? name).filter heap.isClass

/-- Make every registered name a constant of `object`, except where one is bound already. -/
def bindConstants (registry : Registry) (object : Ref .module) (heap : Heap) : Heap :=
  registry.entries.foldl
    (fun heap (name, module) =>
      match heap.constant? object name with
      | some _ => heap
      | none => heap.setConstant object name (.module module))
    heap

end Registry

/-- How a member of a catalogue is made. -/
structure Blueprint (ι : Type) where
  role : String
  name : String
  isClass : Bool := true
  parent : Option ι := none

/-- The members of a plan with their identities, in the order of the plan. -/
abbrev Catalogue (ι : Type) := List (ι × Ref .module)

namespace Catalogue

variable {ι : Type} [DecidableEq ι]

def find? (catalogue : Catalogue ι) (member : ι) : Option (Ref .module) :=
  (List.find? (fun entry => decide (entry.1 = member)) catalogue).map Prod.snd

def get (catalogue : Catalogue ι) (member : ι) : Ref .module :=
  (catalogue.find? member).getD default

/-- Define one member after the earlier ones; a class without a parent goes under `root`. -/
def defineMember (blueprint : ι -> Blueprint ι) (root : Option (Ref .module))
    (state : Catalogue ι × Registry × Heap) (member : ι) : Catalogue ι × Registry × Heap :=
  let (catalogue, registry, heap) := state
  let plan := blueprint member
  let (module, registry, heap) :=
    if plan.isClass then
      let superclass := (plan.parent.map catalogue.get).or root
      registry.defineClass heap plan.name superclass
    else registry.defineModule heap plan.name
  (catalogue ++ [(member, module)], registry, heap)

/-- Define all members of a plan in order. -/
def define (members : List ι) (blueprint : ι -> Blueprint ι) (root : Option (Ref .module))
    (registry : Registry) (heap : Heap) : Catalogue ι × Registry × Heap :=
  members.foldl (defineMember blueprint root) ([], registry, heap)

end Catalogue

end ExecutionContext
