import ExecutionContext.Module

/-!
# Lexical namespaces

A namespace is a nonempty list of levels, innermost first, and a level is a cell
that holds the module it stands for. The nesting of levels is fixed when they are
made; the module of a level may be replaced, and everyone who holds the level sees
that. A constant is looked up on the modules of the levels, from the inside out,
and then along the superclasses of the innermost module.
-/

namespace ExecutionContext

/-- The modules of all levels. -/
abbrev Levels := Arena .level (Ref .module)

/-- A level and the levels around it, innermost first. -/
structure Namespace where
  level : Ref .level
  outer : List (Ref .level) := []
deriving DecidableEq

namespace Namespace

def top (levels : Levels) (module : Ref .module) : Namespace × Levels :=
  let (level, levels) := levels.alloc module
  ({ level := level }, levels)

def all (ns : Namespace) : List (Ref .level) :=
  ns.level :: ns.outer

/-- A namespace for a module opened inside another. -/
def child (parent : Namespace) (levels : Levels) (module : Ref .module) : Namespace × Levels :=
  let (level, levels) := levels.alloc module
  ({ level := level, outer := parent.all }, levels)

/-- The module of the innermost level. -/
def module (ns : Namespace) (levels : Levels) : Ref .module :=
  levels.read ns.level

def setModule (ns : Namespace) (levels : Levels) (module : Ref .module) : Levels :=
  levels.write ns.level module

def parent? (ns : Namespace) : Option Namespace :=
  match ns.outer with
  | [] => none
  | level :: outer => some { level := level, outer := outer }

def depth (ns : Namespace) : Nat :=
  ns.all.length

/-- The constant that `name` stands for inside the namespace. -/
def constant? (ns : Namespace) (levels : Levels) (heap : Heap) (name : String) : Option Value :=
  (ns.all.findSome? (fun level => heap.constant? (levels.read level) name)).or
    (heap.inheritedConstant? (ns.module levels) name)

end Namespace

end ExecutionContext
