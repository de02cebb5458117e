import ExecutionContext.Context
import ExecutionContext.Script.Shown

/-!
# Traces

The trace of a script has an entry for every command that ended, in the order in
which they ended, with the depths of the stacks at that moment. Some commands leave
a further entry, a view of the context or of one of its parts, just before their own.
-/

namespace ExecutionContext.Script

/-- The depths of the stacks of frames, scopes, blocks, marks and saved classes. -/
structure Depths where
  frames : Nat
  scopes : Nat
  blocks : Nat
  marks : Nat
  classes : Nat

inductive Result where
  | answer (value : Shown)
  | failure (failure : Failure)
  | breakWith (value : Shown)
  | returnWith (value : Shown)
  | throwTo (tag value : Shown)
  | jump (keyword : String)

structure FrameView where
  number : Nat
  self : Shown
  method : Option String
  mark : Attachment
  ns : Option Nat

structure ScopeView where
  number : Nat
  names : List String
  values : List Shown

/-- A view of a chain: its number and its outline. -/
structure ChainView where
  number : Nat
  outline : String

structure ContextView where
  cls : Option Shown
  frame : Option FrameView
  previous : Option Nat
  scope : Option ScopeView
  ns : List (Nat × Shown)
  lexicalModule : Option Shown
  chain : ChainView
  block : Option Nat
  mark : Option Attachment
  safeLevel : Nat
  given : Bool
  callerGiven : Bool

structure BlockView where
  number : Nat
  params : String
  self : Shown
  frame : Nat
  scope : Nat
  ns : Option Nat
  cls : Option Shown
  chain : ChainView
  mark : Attachment

structure CatalogueRow where
  role : String
  name : String
  isClass : Bool
  superclass : Option String

inductive Content where
  | result (result : Result)
  | fault (fault : Fault)
  | context (view : ContextView)
  | block (view : BlockView)
  | catalogue (rows : List CatalogueRow)
  | numbers (numbers : List (Option Nat))
  /-- Runs of equal names, with their lengths. -/
  | runs (runs : List (String × Nat))

structure Entry where
  label : String
  content : Content
  depths : Depths

/-- Put one more name in front of runs of equal names. -/
def addRun (name : String) : List (String × Nat) -> List (String × Nat)
  | (other, count) :: rest =>
      if other = name then (other, count + 1) :: rest else (name, 1) :: (other, count) :: rest
  | [] => [(name, 1)]

def runsOf (names : List String) : List (String × Nat) :=
  names.foldr addRun []

variable {H : Host}

def depthsOf (c : Context H) : Depths :=
  { frames := c.frames.depth
    scopes := c.scopes.depth
    blocks := c.blocks.depth
    marks := c.marks.depth
    classes := c.classes.depth }

def showOption {α β : Type} (show_ : α -> StateM Numbering β) :
    Option α -> StateM Numbering (Option β)
  | some a => do return some (← show_ a)
  | none => return none

def showSignal (heap : Heap) : Signal -> StateM Numbering Result
  | .failure failure => return .failure failure
  | .breakWith value => do return .breakWith (← showValue heap value)
  | .returnWith value => do return .returnWith (← showValue heap value)
  | .throwTo tag value => do
      let tag ← showValue heap tag
      return .throwTo tag (← showValue heap value)
  | jump => return .jump jump.keyword

def showFrame (c : Context H) (ref : Ref .frame) : StateM Numbering FrameView := do
  let frame := c.frameCells.read ref
  let number ← Numbering.frame ref
  let self ← showValue c.heap frame.self
  let ns ← showOption Numbering.level (frame.ns.map Namespace.level)
  return { number := number, self := self, method := frame.method, mark := frame.mark, ns := ns }

def showScope (c : Context H) (ref : Ref .scope) : StateM Numbering ScopeView := do
  let scope := c.scopeCells.read ref
  let number ← Numbering.scope ref
  let values ← (List.range scope.names.length).mapM (fun slot => showValue c.heap (scope.get slot))
  return { number := number, names := scope.names, values := values }

def showChain (chain : Chain) : StateM Numbering ChainView := do
  return { number := ← Numbering.chain chain, outline := chain.outline }

def showLevel (c : Context H) (level : Ref .level) : StateM Numbering (Nat × Shown) := do
  let number ← Numbering.level level
  return (number, ← showModule c.heap (c.levels.read level))

def showContext (c : Context H) : StateM Numbering ContextView := do
  let cls ← showOption (showModule c.heap) c.classes.current
  let frame ← showOption (showFrame c) c.frames.top?
  let previous ← showOption Numbering.frame c.frames.previous?
  let scope ← showOption (showScope c) c.scopes.top?
  let ns ← ((c.ns.map Namespace.all).getD []).mapM (showLevel c)
  let lexicalModule ← showOption (showModule c.heap)
    ((c.frames.top?.bind (fun frame => (c.frameCells.read frame).ns)).map (·.module c.levels))
  let chain ← showChain c.chain
  let block ← showOption (fun block : Block H.Body => Numbering.block block.id) c.blocks.top?
  return {
    cls := cls
    frame := frame
    previous := previous
    scope := scope
    ns := ns
    lexicalModule := lexicalModule
    chain := chain
    block := block
    mark := c.marks.top?
    safeLevel := c.safeLevel
    given := c.isBlockGiven
    callerGiven := c.isCallerBlockGiven }

def showBlock (c : Context H) (block : Block H.Body) : StateM Numbering BlockView := do
  let number ← Numbering.block block.id
  let self ← showValue c.heap block.self
  let frame ← Numbering.frame block.frame
  let scope ← Numbering.scope block.scope
  let ns ← showOption Numbering.level (block.ns.map Namespace.level)
  let cls ← showOption (showModule c.heap) block.cls
  let chain ← showChain block.chain
  return {
    number := number
    params := block.params.inspect
    self := self
    frame := frame
    scope := scope
    ns := ns
    cls := cls
    chain := chain
    mark := block.mark }

/-- The listing of a catalogue, under the present names. -/
def listCatalogue {ι : Type} (heap : Heap) (blueprint : ι -> Blueprint ι)
    (catalogue : Catalogue ι) : List CatalogueRow :=
  catalogue.map fun (member, module) =>
    { role := (blueprint member).role
      name := heap.moduleName module
      isClass := heap.isClass module
      superclass := (heap.superclass? module).map heap.moduleName }

end ExecutionContext.Script
