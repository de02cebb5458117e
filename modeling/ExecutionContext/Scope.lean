import ExecutionContext.Value

/-!
# Scopes of local variables

A scope keeps its locals in numbered slots, names and values side by side. A scope
that has any locals starts with the two special slots, the last line and the last
match; every way of giving a scope its first local puts them in front.
-/

namespace ExecutionContext

/-- The names and the values of the slots, in slot order. -/
structure Scope where
  names : List String := []
  values : List Value := []

namespace Scope

instance : Inhabited Scope := ⟨{}⟩

/-- The slot of the last line read. -/
def lastLineSlot : Nat := 0

def lastMatchSlot : Nat := 1

/-- The names of the special slots, in slot order. -/
def specialNames : List String := ["_", "~"]

def hasValues (scope : Scope) : Bool :=
  !scope.values.isEmpty

/-- Make a list exactly `count` long, cutting its end or filling up with nil. -/
def resize (count : Nat) (values : List Value) : List Value :=
  values.take count ++ List.replicate (count - values.length) .nil

/-- Replace the names. Values keep their slots, new slots start as nil, and names that do not
begin with the special ones get them put in front. -/
def setNames (scope : Scope) (names : List String) : Scope :=
  let names := if specialNames.isPrefixOf names then names else specialNames ++ names
  { names := names, values := resize names.length scope.values }

/-- Give a scope without locals its special slots. -/
def ensureSpecial (scope : Scope) : Scope :=
  if scope.names.isEmpty then scope.setNames [] else scope

/-- The value in a slot; nil past the end. -/
def get (scope : Scope) (slot : Nat) : Value :=
  scope.values.getD slot .nil

/-- Store into a slot; false when there is no such slot. -/
def set (scope : Scope) (slot : Nat) (value : Value) : Bool × Scope :=
  (decide (slot < scope.values.length), { scope with values := scope.values.set slot value })

def slotOf? (scope : Scope) (name : String) : Option Nat :=
  scope.names.findIdx? (fun other => decide (other = name))

def lookup? (scope : Scope) (name : String) : Option Value :=
  (scope.slotOf? name).map scope.get

/-- Assign a declared local; false when the name is not declared. -/
def assign (scope : Scope) (name : String) (value : Value) : Bool × Scope :=
  match scope.slotOf? name with
  | some slot => scope.set slot value
  | none => (false, scope)

/-- Assign a local, declaring it first if need be. -/
def declare (scope : Scope) (name : String) (value : Value) : Scope :=
  match scope.assign name value with
  | (true, assigned) => assigned
  | (false, _) =>
      let scope := scope.ensureSpecial
      { names := scope.names ++ [name], values := scope.values ++ [value] }

/-- A scope with the special slots and the given locals, all nil. -/
def withLocals (names : List String) : Scope :=
  names.foldl (fun scope name => scope.declare name .nil) (ensureSpecial {})

end Scope

end ExecutionContext
