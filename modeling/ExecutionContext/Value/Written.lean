import ExecutionContext.Module
import ExecutionContext.Decimal.Positional
import ExecutionContext.Text.Quoted

/-!
# Values as text

Every value has a plain text, meant for readers, and an exact text that also tells
its sort. Both open arrays to the full depth, so an array that can be reached from
itself has neither. Nesting without repetition is at most as deep as there are
arrays, and that bounds the search: `display?` and `inspect?` answer `none` exactly
when the text would have no end.
-/

namespace ExecutionContext

namespace Heap

/-- The mark of an object: its class's present name. -/
def objectMark (heap : Heap) (ref : Ref .object) : String :=
  "#<" ++ heap.moduleName (heap.objectClass ref) ++ ">"

/-- The plain text, with arrays opened at most `depth` levels deep. -/
def displayWithin (heap : Heap) : Nat -> Value -> Option String
  | _, .nil => some "nil"
  | _, .bool b => some (if b then "true" else "false")
  | _, .int n => some (toString n.toInt)
  | _, .float x => some x.text
  | _, .text ref => some (heap.texts.read ref)
  | 0, .array _ => none
  | depth + 1, .array ref =>
      ((heap.arrays.read ref).mapM (heap.displayWithin depth)).map Text.bracketed
  | _, .object ref => some (heap.objectMark ref)
  | _, .module ref => some (heap.moduleName ref)

/-- The exact text, with arrays opened at most `depth` levels deep. -/
def inspectWithin (heap : Heap) : Nat -> Value -> Option String
  | _, .nil => some "Nil"
  | _, .bool b => some ("Bool(" ++ (if b then "true" else "false") ++ ")")
  | _, .int n => some ("Int(" ++ toString n.toInt ++ ")")
  | _, .float x => some ("Float(" ++ x.text ++ ")")
  | _, .text ref => some ("Str(" ++ Text.quote (heap.texts.read ref) ++ ")")
  | 0, .array _ => none
  | depth + 1, .array ref =>
      ((heap.arrays.read ref).mapM (heap.inspectWithin depth)).map
        (fun parts => "Array(" ++ Text.bracketed parts ++ ")")
  | _, .object ref => some ("Object(" ++ heap.objectMark ref ++ ")")
  | _, .module ref => some ("Module(" ++ heap.moduleName ref ++ ")")

/-- A depth that no ending text exceeds: the number of arrays. -/
def nestingDepth (heap : Heap) : Nat :=
  heap.arrays.size + 1

/-- The plain text of a value; `none` when it has no end. -/
def display? (heap : Heap) (value : Value) : Option String :=
  heap.displayWithin heap.nestingDepth value

/-- The exact text of a value; `none` when it has no end. -/
def inspect? (heap : Heap) (value : Value) : Option String :=
  heap.inspectWithin heap.nestingDepth value

/-- The exact text of a module: its name, whether it is a class, and its superclass. -/
def inspectModule (heap : Heap) (ref : Ref .module) : String :=
  let parent :=
    match heap.superclass? ref with
    | some parent => "Some(" ++ Text.quote (heap.moduleName parent) ++ ")"
    | none => "None"
  "RModule \x7b name: " ++ Text.quote (heap.moduleName ref) ++ ", kind: " ++
    (if heap.isClass ref then "Class" else "Module") ++ ", superclass: " ++ parent ++ ", .. \x7d"

end Heap

end ExecutionContext
