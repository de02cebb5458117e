import ExecutionContext.Failure
import ExecutionContext.Value

/-!
# Global variables

A table from names to variables. A plain variable owns a cell, a read-only one a
value that never changes, and a special one only says which part of the running
context holds its value. An alias refers to a variable, not to a name: it keeps
that variable's storage even after the other name is bound anew or removed.
-/

namespace ExecutionContext

/-- The parts of the running context that special variables stand for. -/
inductive SpecialGlobal where
  | safeLevel
  | lastLine
  | lastMatch
deriving DecidableEq

/-- A variable, with the name under which it was defined. -/
inductive Variable where
  | plain (name : String) (cell : Ref .global)
  | readOnly (name : String) (value : Value)
  | special (name : String) (kind : SpecialGlobal)
  | aliasOf (name : String) (target : Variable)

/-- What a read finds: a value, or the part of the context to ask. -/
inductive GlobalRead where
  | value (value : Value)
  | special (kind : SpecialGlobal)
deriving DecidableEq

/-- What a write did: it stored the value, or names the part of the context to write. -/
inductive GlobalWrite where
  | stored
  | special (kind : SpecialGlobal)
deriving DecidableEq

/-- The values of the plain variables. -/
abbrev GlobalCells := Arena .global Value

namespace Variable

/-- The name under which the variable was defined. -/
def name : Variable -> String
  | .plain name _ | .readOnly name _ | .special name _ | .aliasOf name _ => name

def isAlias (var : Variable) : Bool :=
  var matches .aliasOf ..

def read (cells : GlobalCells) : Variable -> GlobalRead
  | .plain _ cell => .value (cells.read cell)
  | .readOnly _ value => .value value
  | .special _ kind => .special kind
  | .aliasOf _ target => target.read cells

def write (cells : GlobalCells) (value : Value) :
    Variable -> Except Failure (GlobalWrite × GlobalCells)
  | .plain _ cell => .ok (.stored, cells.write cell value)
  | .readOnly name _ => .error { cause := .readOnly name }
  | .special _ kind => .ok (.special kind, cells)
  | .aliasOf _ target => target.write cells value

end Variable

/-- The variables by name, and the values of the plain ones. -/
structure Globals where
  table : Table Variable := {}
  cells : GlobalCells := {}

namespace Globals

instance : Inhabited Globals := ⟨{}⟩

def lookup? (globals : Globals) (name : String) : Option Variable :=
  globals.table.get? name

def define (globals : Globals) (var : Variable) : Globals :=
  { globals with table := globals.table.insert var.name var }

def definePlain (globals : Globals) (name : String) (value : Value) : Variable × Globals :=
  let (cell, cells) := globals.cells.alloc value
  let var := Variable.plain name cell
  (var, { globals with cells := cells }.define var)

/-- The variable of that name, made plain and nil if there is none. -/
def entry (globals : Globals) (name : String) : Variable × Globals :=
  match globals.lookup? name with
  | some var => (var, globals)
  | none => globals.definePlain name .nil

/-- Read a variable; an unknown one is nil and is defined from then on. -/
def get (globals : Globals) (name : String) : GlobalRead × Globals :=
  let (var, globals) := globals.entry name
  (var.read globals.cells, globals)

/-- Write a variable, defining it first if need be. -/
def set (globals : Globals) (name : String) (value : Value) :
    Except Failure (GlobalWrite × Globals) :=
  let (var, globals) := globals.entry name
  match var.write globals.cells value with
  | .ok (outcome, cells) => .ok (outcome, { globals with cells := cells })
  | .error failure => .error failure

/-- Let `new` share the storage of `old`, which is defined first if need be. -/
def addAlias (globals : Globals) (old new : String) : Globals :=
  let (target, globals) := globals.entry old
  globals.define (.aliasOf new target)

/-- Remove a name; whether it was defined. -/
def undefine (globals : Globals) (name : String) : Bool × Globals :=
  (globals.table.contains name,
    { globals with table := globals.table.erase name })

def isDefined (globals : Globals) (name : String) : Bool :=
  globals.table.contains name

def names (globals : Globals) : List String :=
  globals.table.names

def size (globals : Globals) : Nat :=
  globals.table.size

end Globals

end ExecutionContext
