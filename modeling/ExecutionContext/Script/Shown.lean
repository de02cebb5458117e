import ExecutionContext.Block
import ExecutionContext.Module

/-!
# Values as they are shown

What is shown of a value is a snapshot that no later change can reach: arrays are
copied to their full depth, and an identity is shown as a number. Within one
numbering, the first identity of its sort that is shown gets zero and every new one
the next number; the same identity always has the same number.
-/

namespace ExecutionContext.Script

/-- A snapshot of a value. -/
inductive Shown where
  | nil
  | bool (b : Bool)
  | int (n : Int)
  | float (x : Binary64)
  | text (s : String)
  | array (items : List Shown)
  | object (className : String) (number : Nat)
  | module (name : String) (number : Nat)

instance : Inhabited Shown := ⟨.nil⟩

/-- The identities shown so far, each sort in the order of its numbers. -/
structure Numbering where
  objects : List (Ref .object) := []
  modules : List (Ref .module) := []
  frames : List (Ref .frame) := []
  scopes : List (Ref .scope) := []
  levels : List (Ref .level) := []
  blocks : List (Ref .block) := []
  chains : List (Option (Ref .link)) := []

instance : Inhabited Numbering := ⟨{}⟩

/-- The number of an identity among those shown before, and the list with it included. -/
def numberIn {α : Type} [DecidableEq α] (seen : List α) (identity : α) : Nat × List α :=
  match seen.findIdx? (fun other => decide (other = identity)) with
  | some number => (number, seen)
  | none => (seen.length, seen ++ [identity])

namespace Numbering

def object (ref : Ref .object) : StateM Numbering Nat :=
  modifyGet fun n =>
    let (number, seen) := numberIn n.objects ref
    (number, { n with objects := seen })

def module (ref : Ref .module) : StateM Numbering Nat :=
  modifyGet fun n =>
    let (number, seen) := numberIn n.modules ref
    (number, { n with modules := seen })

def frame (ref : Ref .frame) : StateM Numbering Nat :=
  modifyGet fun n =>
    let (number, seen) := numberIn n.frames ref
    (number, { n with frames := seen })

def scope (ref : Ref .scope) : StateM Numbering Nat :=
  modifyGet fun n =>
    let (number, seen) := numberIn n.scopes ref
    (number, { n with scopes := seen })

def level (ref : Ref .level) : StateM Numbering Nat :=
  modifyGet fun n =>
    let (number, seen) := numberIn n.levels ref
    (number, { n with levels := seen })

def block (ref : Ref .block) : StateM Numbering Nat :=
  modifyGet fun n =>
    let (number, seen) := numberIn n.blocks ref
    (number, { n with blocks := seen })

/-- Number a chain by its innermost link; all empty chains are one. -/
def chain (chain : Chain) : StateM Numbering Nat :=
  modifyGet fun n =>
    let (number, seen) := numberIn n.chains chain.head?
    (number, { n with chains := seen })

end Numbering

def showModule (heap : Heap) (ref : Ref .module) : StateM Numbering Shown := do
  return .module (heap.moduleName ref) (← Numbering.module ref)

/-- Show a value; arrays nested more deeply than `depth` are cut off. -/
def showWithin (heap : Heap) : Nat -> Value -> StateM Numbering Shown
  | _, .nil => return .nil
  | _, .bool b => return .bool b
  | _, .int n => return .int n.toInt
  | _, .float x => return .float x
  | _, .text ref => return .text (heap.texts.read ref)
  | 0, .array _ => return .array []
  | depth + 1, .array ref =>
      return .array (← (heap.arrays.read ref).mapM (showWithin heap depth))
  | _, .object ref => do
      return .object (heap.moduleName (heap.objectClass ref)) (← Numbering.object ref)
  | _, .module ref => showModule heap ref

/-- Show a value. No array that is not part of itself is nested more deeply than there are
arrays. -/
def showValue (heap : Heap) (value : Value) : StateM Numbering Shown :=
  showWithin heap (heap.arrays.size + 1) value

end ExecutionContext.Script
