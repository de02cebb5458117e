import ExecutionContext.Value
import ExecutionContext.Text.Quoted

/-!
# Chains of dynamic variables

A chain is a list of links, innermost first. A link is a name and the identity of
the cell that holds its value; a link without a name marks where the activation of
a block began. Chains are extended at their inner end only, and chains that share
links share the cells behind them, so a write through one is seen through all.
Two chains are the same when they start at the same link.
-/

namespace ExecutionContext

/-- One link; `name` is `none` at the start of an activation. -/
structure Link where
  name : Option String
  cell : Ref .link
deriving DecidableEq

/-- The links of a chain, innermost first. -/
abbrev Chain := List Link

/-- The values behind the links of all chains. -/
abbrev Bindings := Arena .link Value

namespace Chain

def find? (chain : Chain) (name : String) : Option (Ref .link) :=
  (List.find? (fun link => decide (link.name = some name)) chain).map Link.cell

def get? (chain : Chain) (bindings : Bindings) (name : String) : Option Value :=
  (chain.find? name).map bindings.read

def isDefined (chain : Chain) (name : String) : Bool :=
  (chain.find? name).isSome

/-- Put a link with a cell of its own in front. -/
def extend (chain : Chain) (bindings : Bindings) (name : Option String) (value : Value) :
    Chain × Bindings :=
  let (cell, bindings) := bindings.alloc value
  (⟨name, cell⟩ :: chain, bindings)

/-- Add an innermost variable, hiding any outer one of that name. -/
def declare (chain : Chain) (bindings : Bindings) (name : String) (value : Value) :
    Chain × Bindings :=
  chain.extend bindings (some name) value

/-- The chain on which an activation starts: the given one behind a new mark. -/
def activate (chain : Chain) (bindings : Bindings) : Chain × Bindings :=
  chain.extend bindings none .nil

/-- Write a visible variable; false when the name is not visible. -/
def assign (chain : Chain) (bindings : Bindings) (name : String) (value : Value) :
    Bool × Bindings :=
  match chain.find? name with
  | some cell => (true, bindings.write cell value)
  | none => (false, bindings)

/-- Write a visible variable, or declare it. -/
def set (chain : Chain) (bindings : Bindings) (name : String) (value : Value) :
    Chain × Bindings :=
  match chain.find? name with
  | some cell => (chain, bindings.write cell value)
  | none => chain.declare bindings name value

/-- The visible names, innermost first, each once. -/
def names : Chain -> List String
  | [] => []
  | link :: rest =>
      match link.name with
      | some name => name :: (names rest).filter (fun other => decide (other ≠ name))
      | none => names rest

/-- The identity of a chain: the cell of its innermost link. -/
def head? (chain : Chain) : Option (Ref .link) :=
  (List.head? chain).map Link.cell

def same (chain other : Chain) : Bool :=
  decide (chain.head? = other.head?)

/-- The quoted names of all links, a bar for the start of an activation. -/
def outline (chain : Chain) : String :=
  Text.bracketed (chain.map (fun link => Text.quote (link.name.getD "|")))

end Chain

end ExecutionContext
