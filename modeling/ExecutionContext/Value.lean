import ExecutionContext.Arena
import ExecutionContext.Table
import ExecutionContext.Decimal.Binary64

/-!
# Values and the heap behind them

Nil, booleans, integers and floating-point numbers are immediate. Texts, arrays,
objects and modules are references into the heap, so equality of `Value`s is
identity: immediates are identical when their bits agree, the others when they
name the same cell. Texts never change; arrays are mutable and may contain
themselves.
-/

namespace ExecutionContext

/-- A value of the running program. -/
inductive Value where
  | nil
  | bool (b : Bool)
  | int (n : Int64)
  | float (x : Binary64)
  | text (ref : Ref .text)
  | array (ref : Ref .array)
  | object (ref : Ref .object)
  | module (ref : Ref .module)
deriving DecidableEq, Inhabited

/-- A class or a plain module. `ancestors` is its chain of superclasses, nearest first. -/
structure Module where
  name : String
  isClass : Bool
  ancestors : List (Ref .module) := []
  constants : Table Value := {}

instance : Inhabited Module := ⟨{ name := "", isClass := false }⟩

/-- The cells that values refer to. An object is known by its class alone. -/
structure Heap where
  texts : Arena .text String := {}
  arrays : Arena .array (List Value) := {}
  objects : Arena .object (Ref .module) := {}
  modules : Arena .module Module := {}

instance : Inhabited Heap := ⟨{}⟩

namespace Value

def isNil (value : Value) : Bool :=
  value matches .nil

/-- Everything except nil and false counts as true. -/
def isTruthy (value : Value) : Bool :=
  !(value matches .nil | .bool false)

/-- Identity: the same immediate, or the same cell. -/
def same (a b : Value) : Bool :=
  decide (a = b)

/-- The sort of a value, as failures name it. -/
def typeName : Value -> String
  | .nil => "nil"
  | .bool _ => "bool"
  | .int _ => "integer"
  | .float _ => "float"
  | .text _ => "string"
  | .array _ => "array"
  | .object _ => "object"
  | .module _ => "module"

def asModule? : Value -> Option (Ref .module)
  | .module ref => some ref
  | _ => none

theorem same_iff {a b : Value} : a.same b = true ↔ a = b := by
  simp [same]

end Value

namespace Heap

def newText (heap : Heap) (text : String) : Value × Heap :=
  let (ref, texts) := heap.texts.alloc text
  (.text ref, { heap with texts := texts })

def newArray (heap : Heap) (items : List Value) : Value × Heap :=
  let (ref, arrays) := heap.arrays.alloc items
  (.array ref, { heap with arrays := arrays })

def newObject (heap : Heap) (cls : Ref .module) : Value × Heap :=
  let (ref, objects) := heap.objects.alloc cls
  (.object ref, { heap with objects := objects })

def newTexts (heap : Heap) : List String -> List Value × Heap
  | [] => ([], heap)
  | text :: rest =>
      let (value, heap) := heap.newText text
      let (values, heap) := heap.newTexts rest
      (value :: values, heap)

def asText? (heap : Heap) : Value -> Option String
  | .text ref => some (heap.texts.read ref)
  | _ => none

/-- The present elements of an array. -/
def items? (heap : Heap) : Value -> Option (List Value)
  | .array ref => some (heap.arrays.read ref)
  | _ => none

/-- The element of an array at a place; none outside the array or of anything else. -/
def entry? (heap : Heap) (value : Value) (place : Nat) : Option Value :=
  (heap.items? value).bind (fun items => items[place]?)

/-- Append to an array in place; anything else is left alone and answers false. -/
def arrayPush (heap : Heap) (target item : Value) : Bool × Heap :=
  match target with
  | .array ref =>
      (true, { heap with arrays := heap.arrays.modify ref (fun items => items ++ [item]) })
  | _ => (false, heap)

/-- Spread a value into arguments: an array gives its elements, anything else itself. -/
def toArgs (heap : Heap) (value : Value) : List Value :=
  (heap.items? value).getD [value]

/-- Pack arguments into one value: a single argument passes through, anything else becomes a
new array. -/
def fromArgs (heap : Heap) (args : List Value) : Value × Heap :=
  match args with
  | [only] => (only, heap)
  | _ => heap.newArray args

@[simp] theorem items?_newArray (heap : Heap) (items : List Value) :
    (heap.newArray items).2.items? (heap.newArray items).1 = some items := by
  simp [newArray, items?]

theorem toArgs_fromArgs {heap : Heap} {args : List Value} (h : args.length ≠ 1) :
    (heap.fromArgs args).2.toArgs (heap.fromArgs args).1 = args := by
  match args with
  | [] => simp [fromArgs, toArgs]
  | [_] => simp at h
  | _ :: _ :: _ => simp [fromArgs, toArgs]

end Heap

end ExecutionContext
