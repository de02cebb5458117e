import ExecutionContext.Trial.Steps

/-!
# Portraits of values and failures

Everything that can be asked of a value or a failure, in one record. A gallery is a
list of values with their portraits and the relations between them; its expressions
may refer to the values before them, to one class `Thing` and to one module `Mixin`.
-/

namespace ExecutionContext.Trial

open Script

/-- All answers of a value. -/
structure Portrait where
  value : Shown
  sort : String
  display : Option String
  inspect : Option String
  isTruthy : Bool
  isNil : Bool
  length : Option Nat
  /-- The element at place zero. -/
  first : Shown
  /-- The element at place two. -/
  third : Shown
  /-- The value spread into arguments. -/
  args : Shown
  /-- These arguments packed again. -/
  packed : Shown
  items : Shown
  text : Option String
  module : Shown

def portray (value : Value) : Machine Portrait := do
  let heap := (← get).heap
  let args := heap.toArgs value
  let shown ← snapshot value
  let first ← snapshotOption (heap.entry? value 0)
  let third ← snapshotOption (heap.entry? value 2)
  let shownArgs ← snapshots args
  let packed ← snapshot (← packArgs args)
  let items ←
    match heap.items? value with
    | some items => snapshots items
    | none => pure .nil
  let module ← snapshotModule value.asModule?
  return {
    value := shown
    sort := value.typeName
    display := heap.display? value
    inspect := heap.inspect? value
    isTruthy := value.isTruthy
    isNil := value.isNil
    length := (heap.items? value).map List.length
    first := first
    third := third
    args := shownArgs
    packed := packed
    items := items
    text := heap.asText? value
    module := module }

structure Gallery where
  portraits : List Portrait
  /-- Which of the pushes had an array as their target. -/
  pushed : List Bool
  /-- A row for each value: which values it equals. -/
  equal : List (List Bool)
  /-- A row for each value: which values it is identical with. -/
  same : List (List Bool)
  packed : Shown

/-- Evaluate expressions in order, keeping each value under its number. -/
def placeValues : Nat -> List Expr -> Machine (List Value)
  | _, [] => return []
  | number, e :: rest => do
      let value ← evaluate {} e
      keep (toString number) value
      return value :: (← placeValues (number + 1) rest)

def pushOnto (values : List Value) (number : Nat) (e : Expr) : Machine Bool := do
  let item ← evaluate {} e
  modifyGet fun c =>
    let (pushed, heap) := c.heap.arrayPush (values.getD number .nil) item
    (pushed, { c with heap := heap })

/-- For each value, the row of its relation to all of them. -/
def relationTable (related : Value -> Value -> Bool) (values : List Value) : List (List Bool) :=
  values.map (fun a => values.map (related a))

/-- Make values, push items onto some of them, and portray them all. -/
def arrange (expressions : List Expr) (pushes : List (Nat × Expr)) : Machine Gallery := do
  let thing ← makeClass "Thing" none
  keep "Thing" (.module thing)
  let mixin ← makeModule "Mixin"
  keep "Mixin" (.module mixin)
  let values ← placeValues 0 expressions
  let pushed ← pushes.mapM (fun (number, e) => pushOnto values number e)
  let portraits ← values.mapM portray
  let packed ← snapshot (← packArgs values)
  let heap := (← get).heap
  return {
    portraits := portraits
    pushed := pushed
    equal := relationTable (fun a b => (heap.equal? a b).getD false) values
    same := relationTable Value.same values
    packed := packed }

def gallery (expressions : List Expr) (pushes : List (Nat × Expr)) : Outcome Gallery :=
  match arrange expressions pushes bench with
  | .ok gallery _ => .ok gallery
  | .error exit _ => .error exit

structure SignalPortrait where
  keyword : String
  isFailure : Bool
  failure : Failure

/-- The portrait of a signal; a failure gets the backtrace, if there is one. -/
def portraySignal (s : SignalExpr) (backtrace : Option Backtrace) : Machine SignalPortrait := do
  let signal ← evaluateSignal {} s
  let signal :=
    match signal, backtrace with
    | .failure failure, some names => Signal.failure (failure.attach names)
    | signal, _ => signal
  match signal.toFailure? (← get).heap with
  | some failure =>
      return { keyword := signal.keyword, isFailure := signal.isFailure, failure := failure }
  | none => Run.exhausted

def signalPortrait (s : SignalExpr) (backtrace : Option Backtrace) : Outcome SignalPortrait :=
  match portraySignal s backtrace bench with
  | .ok portrait _ => .ok portrait
  | .error exit _ => .error exit

end ExecutionContext.Trial
