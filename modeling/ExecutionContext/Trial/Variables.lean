import ExecutionContext.Trial.Steps

/-!
# Trials of variables

Steps on named chains of dynamic variables, on a scope, and on a table of globals.
-/

namespace ExecutionContext.Trial

open Script

/-! ## Chains -/

inductive ChainChange where
  | set (variableName : String) (v : Expr)
  | declare (variableName : String) (v : Expr)
  | assign (variableName : String) (v : Expr)
  | get (variableName : String)
  | isDefined (variableName : String)
  | names
  /-- Let another name stand for the chain. -/
  | copy (other : String)
  /-- Let another name stand for an activation on the chain. -/
  | activate (other : String)
  /-- Compare with another chain; a name that was not used agrees with every chain. -/
  | same (other : String)

structure ChainStep where
  chain : String
  change : ChainChange

structure ChainReport where
  result : Shown
  chain : ChainView

/-- Change the cells behind all chains. -/
def withBindings {ε α : Type} (change : Bindings -> α × Bindings) : Run ε host α :=
  modifyGet fun c =>
    let (a, bindings) := change c.bindings
    (a, { c with bindings := bindings })

/-- The chain of that name; empty when it is first used. -/
def chainNamed (chains : Table Chain) (name : String) : Chain :=
  (chains.get? name).getD []

def changeChain (chains : Table Chain) (name : String) :
    ChainChange -> Machine (Shown × Table Chain)
  | .set variableName v => do
      let value ← evaluate {} v
      let chain := chainNamed chains name
      let chain ← withBindings (fun bindings => chain.set bindings variableName value)
      return (.nil, chains.insert name chain)
  | .declare variableName v => do
      let value ← evaluate {} v
      let chain := chainNamed chains name
      let chain ← withBindings (fun bindings => chain.declare bindings variableName value)
      return (.nil, chains.insert name chain)
  | .assign variableName v => do
      let value ← evaluate {} v
      let chain := chainNamed chains name
      let assigned ← withBindings (fun bindings => chain.assign bindings variableName value)
      return (.bool assigned, chains)
  | .get variableName => do
      let value := (chainNamed chains name).get? (← get).bindings variableName
      return (← snapshotOption value, chains)
  | .isDefined variableName =>
      let chain := chainNamed chains name
      return (.bool (chain.isDefined variableName), chains)
  | .names => return (shownTexts (chainNamed chains name).names, chains)
  | .copy other =>
      let chain := chainNamed chains name
      return (.nil, if other = name then chains else chains.insert other chain)
  | .activate other => do
      if other = name then return (.nil, chains)
      let chain := chainNamed chains name
      let activation ← withBindings (fun bindings => chain.activate bindings)
      return (.nil, chains.insert other activation)
  | .same other =>
      let chain := chainNamed chains name
      return (.bool ((chains.get? other).all (fun other => chain.same other)), chains)

/-- Take one step on named chains. A name counts as used once a step was about it. -/
def chainStep (chains : Table Chain) (step : ChainStep) :
    Machine (ChainReport × Table Chain) := do
  let (result, chains) ← changeChain chains step.chain step.change
  let chain := chainNamed chains step.chain
  let view ← numbering (showChain chain)
  return ({ result := result, chain := view }, chains.insert step.chain chain)

/-! ## Scopes -/

inductive ScopeStep where
  | fresh
  | withLocals (names : List String)
  | hasValues
  | setNames (names : List String)
  | ensureSpecial
  | get (slot : Nat)
  | set (slot : Nat) (v : Expr)
  | slotOf (name : String)
  | lookup (name : String)
  | assign (name : String) (v : Expr)
  | declare (name : String) (v : Expr)

structure ScopeReport where
  result : Shown
  names : List String
  values : Shown

def changeScope (scope : Scope) : ScopeStep -> Machine (Shown × Scope)
  | .fresh => return (.nil, {})
  | .withLocals names => return (.nil, Scope.withLocals names)
  | .hasValues => return (.bool scope.hasValues, scope)
  | .setNames names => return (.nil, scope.setNames names)
  | .ensureSpecial => return (.nil, scope.ensureSpecial)
  | .get slot => do return (← snapshot (scope.get slot), scope)
  | .set slot v => do
      let (stored, scope) := scope.set slot (← evaluate {} v)
      return (.bool stored, scope)
  | .slotOf name => return (((scope.slotOf? name).map shownCount).getD .nil, scope)
  | .lookup name => do return (← snapshotOption (scope.lookup? name), scope)
  | .assign name v => do
      let (assigned, scope) := scope.assign name (← evaluate {} v)
      return (.bool assigned, scope)
  | .declare name v => do return (.nil, scope.declare name (← evaluate {} v))

def scopeStep (scope : Scope) (step : ScopeStep) : Machine (ScopeReport × Scope) := do
  let (result, scope) ← changeScope scope step
  let values ← snapshots ((List.range scope.names.length).map scope.get)
  return ({ result := result, names := scope.names, values := values }, scope)

/-! ## Globals -/

inductive Definition where
  | plain (v : Expr)
  | readOnly (v : Expr)
  | special (kind : SpecialGlobal)
  /-- As an alias of the variable that another name stands for. -/
  | aliasOf (target : String)

inductive GlobalStep where
  | define (name : String) (definition : Definition)
  | get (name : String)
  | set (name : String) (v : Expr)
  | addAlias (old new : String)
  | undefine (name : String)
  | isDefined (name : String)
  | names
  | isEmpty
  | lookup (name : String)

inductive GlobalResult where
  | plain (result : Shown)
  | value (value : Shown)
  | special (kind : SpecialGlobal)
  | stored
  | refused (failure : Failure)
  | noTarget
  | found (var : Option Variable)

structure GlobalReport where
  result : GlobalResult
  size : Nat

def readResult : GlobalRead -> Machine GlobalResult
  | .value value => do return .value (← snapshot value)
  | .special kind => return .special kind

def defineGlobal (globals : Globals) (name : String) :
    Definition -> Machine (GlobalResult × Globals)
  | .plain v => do
      let (var, globals) := globals.definePlain name (← evaluate {} v)
      return (← readResult (var.read globals.cells), globals)
  | .readOnly v => do
      let var := Variable.readOnly name (← evaluate {} v)
      return (← readResult (var.read globals.cells), globals.define var)
  | .special kind => return (.special kind, globals.define (.special name kind))
  | .aliasOf target => do
      match globals.lookup? target with
      | some target =>
          return (← readResult (target.read globals.cells), globals.define (.aliasOf name target))
      | none => return (.noTarget, globals)

def changeGlobals (globals : Globals) : GlobalStep -> Machine (GlobalResult × Globals)
  | .define name definition => defineGlobal globals name definition
  | .get name => do
      let (read, globals) := globals.get name
      return (← readResult read, globals)
  | .set name v => do
      match globals.set name (← evaluate {} v) with
      | .ok (.stored, globals) => return (.stored, globals)
      | .ok (.special kind, globals) => return (.special kind, globals)
      | .error failure => return (.refused failure, globals)
  | .addAlias old new => return (.plain .nil, globals.addAlias old new)
  | .undefine name =>
      let (defined, globals) := globals.undefine name
      return (.plain (.bool defined), globals)
  | .isDefined name => return (.plain (.bool (globals.isDefined name)), globals)
  | .names => return (.plain (shownTexts globals.names), globals)
  | .isEmpty => return (.plain (.bool (decide (globals.size = 0))), globals)
  | .lookup name => return (.found (globals.lookup? name), globals)

def globalStep (globals : Globals) (step : GlobalStep) : Machine (GlobalReport × Globals) := do
  let (result, globals) ← changeGlobals globals step
  return ({ result := result, size := globals.size }, globals)

end ExecutionContext.Trial
