import ExecutionContext.Value

/-!
# Equality of values

Numbers compare by value, texts by content, objects and modules by identity, and
arrays element by element, except that an array equals itself without a look at
its elements. On arrays that contain one another the comparison may have no end:
a pair of arrays that is met again inside its own comparison is met forever. As
there are only finitely many pairs, a bound on the depth of nesting decides this,
and `equal?` answers `none` exactly when the comparison has no end.
-/

namespace ExecutionContext

/-- Compare two lists of the same length element by element, up to the first difference. -/
def compareItems (eq : Value -> Value -> Option Bool) : List Value -> List Value -> Option Bool
  | [], [] => some true
  | a :: as, b :: bs =>
      match eq a b with
      | some true => compareItems eq as bs
      | answer => answer
  | _, _ => some false

namespace Heap

/-- Equality with arrays opened at most `depth` levels deep. -/
def equalWithin (heap : Heap) : Nat -> Value -> Value -> Option Bool
  | depth, .array a, .array b =>
      if a = b then some true
      else
        let as := heap.arrays.read a
        let bs := heap.arrays.read b
        if as.length ≠ bs.length then some false
        else
          match depth with
          | 0 => none
          | depth + 1 => compareItems (heap.equalWithin depth) as bs
  | _, .float x, .float y => some (x.equal y)
  | _, .text s, .text t => some (decide (s = t) || decide (heap.texts.read s = heap.texts.read t))
  | _, a, b => some (decide (a = b))

/-- A depth that no ending comparison exceeds: the number of pairs of arrays. -/
def comparisonDepth (heap : Heap) : Nat :=
  heap.arrays.size * heap.arrays.size + 1

/-- Equality of values; `none` when the comparison has no end. -/
def equal? (heap : Heap) (a b : Value) : Option Bool :=
  heap.equalWithin heap.comparisonDepth a b

end Heap

end ExecutionContext
