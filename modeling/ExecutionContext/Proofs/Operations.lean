import ExecutionContext.Context.Activation
import ExecutionContext.Proofs.Effects

/-! # The operations of a context

One constructor stands for each single operation of a context, and for each sort of cell that code
reaches through a handle, with the effects that it may have. Whatever they are, all of them are
steps of one kind: the safe level may rise, the configuration and the host's own state stay, and so
does what the start of the context put at the bottom of its stacks.
-/

namespace ExecutionContext

open Run

variable {H : Host} {ε α β : Type} {effects : List Effect}

/-! ## All operations -/

/-- A single operation of a context: one that it offers besides the six that run code, or a change
that code makes through a handle it was given. The list says what effects it may have. -/
inductive Operation : {ε α : Type} -> List Effect -> Run ε H α -> Prop where
  | start {ε : Type} (processId : Int64) :
      Operation [.start] (modify fun c => c.start processId : Run ε H Unit)
  -- Frames, scopes, blocks, marks and classes.
  | currentFrame {ε : Type} : Operation [] (currentFrame : Run ε H _)
  | pushFrame (receiver : Value) (method : Option String) :
      Operation [.stacks, .refusal] (pushFrame receiver method)
  | popFrame {ε : Type} : Operation [.stacks] (popFrame : Run ε H _)
  | currentScope {ε : Type} : Operation [] (currentScope : Run ε H _)
  | pushScope {ε : Type} (scope : Scope) : Operation [.stacks] (pushScope scope : Run ε H _)
  | popScope {ε : Type} : Operation [.stacks] (popScope : Run ε H _)
  | setTopScope {ε : Type} (scope : Ref .scope) :
      Operation [.stacks] (setTopScope scope : Run ε H _)
  | newBlock {ε : Type} (params : Params) (code : Code H.Body) :
      Operation [] (newBlock params code : Run ε H _)
  | newBlockWithSelf {ε : Type} (params : Params) (code : Code H.Body) (receiver : Value) :
      Operation [] (newBlockWithSelf params code receiver : Run ε H _)
  | pushBlock {ε : Type} (block : Block H.Body) :
      Operation [.pushBlock] (pushBlock block : Run ε H _)
  | popBlock {ε : Type} : Operation [.stacks] (popBlock : Run ε H _)
  | currentMark {ε : Type} : Operation [] (currentMark : Run ε H _)
  | pushMark {ε : Type} (mark : Attachment) : Operation [.stacks] (pushMark mark : Run ε H _)
  | popMark {ε : Type} : Operation [.stacks] (popMark : Run ε H _)
  | pushClass {ε : Type} (cls : Option (Ref .module)) :
      Operation [.stacks] (pushClass cls : Run ε H _)
  | popClass {ε : Type} : Operation [.stacks] (popClass : Run ε H _)
  | setClass {ε : Type} (cls : Option (Ref .module)) :
      Operation [.stacks] (setClass cls : Run ε H _)
  -- Dynamic variables, the namespace, and the special slots.
  | setDynamic {ε : Type} (name : String) (value : Value) :
      Operation [] (setDynamic name value : Run ε H _)
  | setChain {ε : Type} (chain : Chain) : Operation [.chain] (setChain chain : Run ε H _)
  | setNamespace {ε : Type} (ns : Option Namespace) : Operation [.ns] (setNamespace ns : Run ε H _)
  | setLexicalModule {ε : Type} (module : Ref .module) :
      Operation [.levels, .naming] (setLexicalModule module : Run ε H _)
  | setLastLine {ε : Type} (value : Value) : Operation [] (setLastLine value : Run ε H _)
  | setLastMatch {ε : Type} (value : Value) : Operation [] (setLastMatch value : Run ε H _)
  -- The safe level and globals.
  | setSafeLevel (level : Nat) : Operation [.refusal] (setSafeLevel level)
  | secure (level : Nat) : Operation [.refusal] (secure level)
  | globalGet {ε : Type} (name : String) : Operation [] (globalGet name : Run ε H _)
  | globalSet (name : String) (value : Value) : Operation [.refusal] (globalSet name value)
  | aliasGlobal (old new : String) : Operation [.refusal] (aliasGlobal old new)
  | defineGlobal {ε : Type} (name : String) (value : Value) :
      Operation [] (defineGlobal name value : Run ε H _)
  | defineVariable {ε : Type} (var : Variable) : Operation [] (defineVariable var : Run ε H _)
  | undefineGlobal {ε : Type} (name : String) : Operation [] (undefineGlobal name : Run ε H _)
  -- Classes and constants.
  | coreClasses {ε : Type} : Operation [] (coreClasses : Run ε H _)
  | exceptionClasses {ε : Type} : Operation [] (exceptionClasses : Run ε H _)
  | objectClass {ε : Type} : Operation [] (objectClass : Run ε H _)
  | defineClass {ε : Type} (name : String) (superclass : Option (Ref .module)) :
      Operation [] (defineClass name superclass : Run ε H _)
  | defineClassUnder (name superclass : String) :
      Operation [.refusal] (defineClassUnder name superclass)
  | defineModule {ε : Type} (name : String) : Operation [] (defineModule name : Run ε H _)
  | defineConstant {ε : Type} (name : String) (value : Value) :
      Operation [] (defineConstant name value : Run ε H _)
  | classOf {ε : Type} (value : Value) : Operation [] (classOf value : Run ε H _)
  -- Loading, reporting, and the settings of the running code.
  | compile {α : Type} (parse : Parser α) : Operation [.refusal] (compile parse)
  | extendSearchPath (directories : List Path) (list : Option Bytes) :
      Operation [] (extendSearchPath directories list)
  | searchPath {ε : Type} : Operation [] (searchPath : Run ε H _)
  | findFile (found : Path -> Bool) (path : Path) : Operation [.refusal] (findFile found path)
  | report {ε : Type} (signal : Signal) : Operation [] (report signal : Run ε H _)
  | setVisibility {ε : Type} (visibility : Visibility) :
      Operation [] (modify fun c => { c with visibility := visibility } : Run ε H Unit)
  | setWrapper {ε : Type} (wrapper : Option (Ref .module)) :
      Operation [] (modifyGet fun c => (c.wrapper, { c with wrapper := wrapper }) : Run ε H _)
  | setSource {ε : Type} (file : String) (line : Nat) :
      Operation [] (modify fun c =>
        { c with sourceFile := file, sourceLine := line } : Run ε H Unit)
  | setEvalDepth {ε : Type} (change : Nat -> Nat) :
      Operation [] (modify fun c => { c with evalDepth := change c.evalDepth } : Run ε H Unit)
  -- Changes through handles: to values, frames, scopes, namespaces, dynamic variables, global
  -- variables, and the error stream.
  | changeHeap {ε : Type} (change : Heap -> Heap) :
      Operation [.values] (modify fun c => { c with heap := change c.heap } : Run ε H Unit)
  | changeFrames {ε : Type} (change : Arena .frame Frame -> Arena .frame Frame) :
      Operation [.frames] (modify fun c =>
        { c with frameCells := change c.frameCells } : Run ε H Unit)
  | changeScopes {ε : Type} (change : Arena .scope Scope -> Arena .scope Scope) :
      Operation [] (modify fun c => { c with scopeCells := change c.scopeCells } : Run ε H Unit)
  | changeLevels {ε : Type} (change : Levels -> Levels) :
      Operation [.levels] (modify fun c => { c with levels := change c.levels } : Run ε H Unit)
  | changeBindings {ε : Type} (change : Bindings -> Bindings) :
      Operation [.bindings] (modify fun c =>
        { c with bindings := change c.bindings } : Run ε H Unit)
  | changeGlobals {ε : Type} (change : GlobalCells -> GlobalCells) :
      Operation [] (modify fun c =>
        { c with globals := { c.globals with cells := change c.globals.cells } } : Run ε H Unit)
  | changeErrors {ε : Type} (change : ErrorStream -> ErrorStream) :
      Operation [] (modify fun c => { c with errors := change c.errors } : Run ε H Unit)

/-- An operation has no other effects than those it is listed with. -/
theorem Operation.within {run : Run ε H α} (h : Operation effects run) : run.Within effects := by
  cases h with
  | start processId => exact .modifyGet fun _ => .start processId (.head _)
  | currentFrame => exact currentFrame_within
  | pushFrame receiver method => exact pushFrame_within (by decide) (by decide) receiver method
  | popFrame => exact popFrame_within (.head _)
  | currentScope => exact currentScope_within
  | pushScope scope => exact pushScope_within (.head _) scope
  | popScope => exact popScope_within (.head _)
  | setTopScope scope => exact setTopScope_within (.head _) scope
  | newBlock params code => exact newBlock_within params code
  | newBlockWithSelf params code receiver => exact newBlockWithSelf_within params code receiver
  | pushBlock block => exact pushBlock_within (.head _) block
  | popBlock => exact popBlock_within (.head _)
  | currentMark => exact currentMark_within
  | pushMark mark => exact pushMark_within (.head _) mark
  | popMark => exact popMark_within (.head _)
  | pushClass cls => exact pushClass_within (.head _) cls
  | popClass => exact popClass_within (.head _)
  | setClass cls => exact setClass_within (.head _) cls
  | setDynamic name value => exact setDynamic_within name value
  | setChain chain => exact setChain_within (.head _) chain
  | setNamespace ns => exact setNamespace_within (.head _) ns
  | setLexicalModule module => exact setLexicalModule_within (by decide) (by decide) module
  | setLastLine value => exact setSpecialSlot_within _ value
  | setLastMatch value => exact setSpecialSlot_within _ value
  | setSafeLevel level => exact setSafeLevel_within (.head _) level
  | secure level => exact .of_looks (secure_looks level) (.head _)
  | globalGet name => exact globalGet_within name
  | globalSet name value => exact globalSet_within (.head _) name value
  | aliasGlobal old new => exact aliasGlobal_within (.head _) old new
  | coreClasses => exact coreClasses_within
  | exceptionClasses => exact exceptionClasses_within
  | objectClass => exact objectClass_within
  | defineClass name superclass => exact defineClass_within name superclass
  | defineClassUnder name superclass => exact defineClassUnder_within (.head _) name superclass
  | defineModule name => exact defineModule_within name
  | defineConstant name value => exact defineConstant_within name value
  | classOf value => exact classOf_within value
  | compile parse => exact compile_within (.head _) parse
  | extendSearchPath directories list => exact extendSearchPath_within directories list
  | searchPath => exact searchPath_within
  | findFile found path => exact findFile_within (.head _) found path
  | report signal => exact report_within signal
  | changeHeap change => exact .modifyGet fun _ => .values _ (.head _)
  | changeFrames change => exact .modifyGet fun _ => .frames _ (.head _)
  | changeLevels change => exact .modifyGet fun _ => .levels _ (.head _)
  | changeBindings change => exact .modifyGet fun _ => .bindings _ (.head _)
  -- What is left writes one part of the context that no contract looks at.
  | _ => exact .modifyGet fun _ => .aside

/-! ## What follows from the effects -/

/-- A run keeps what the changes keep that its effects allow. -/
theorem Run.Within.keepsAll {K : Contract H} {run : Run ε H α} (h : run.Within effects)
    (hfaults : ∀ fault, K.Faults fault)
    (hchange : ∀ {c d}, K.Holds c -> c.Change effects d -> K.Holds d ∧ K.Links c d) :
    run.Keeps K := by
  refine fun c hc => Contract.Allows.of_after hfaults ?_
  have hall : ∀ d, c.Changed effects d -> K.Holds d ∧ K.Links c d := by
    intro d hchanged
    induction hchanged with
    | refl => exact ⟨hc, K.refl c⟩
    | tail _ hlast ih =>
        obtain ⟨hmid, hlinks⟩ := ih
        obtain ⟨hd, hlink⟩ := hchange hmid hlast
        exact ⟨hd, K.trans hlinks hlink⟩
  exact hall _ (h.changed c)

/-! ## Steps -/

/-- The context has the base that the other one was started with. A scope at the base may have
been replaced, but never taken off. -/
structure Context.SameBase (c d : Context H) : Prop where
  started : d.started = true
  topFrame : d.topFrame = c.topFrame
  frames : d.frames.base = c.frames.base
  marks : d.marks.base = c.marks.base
  blocks : d.blocks.base = c.blocks.base
  scopes : c.scopes.base ≠ [] -> d.scopes.base ≠ []

theorem Context.SameBase.trans {c d e : Context H} (h₁ : c.SameBase d) (h₂ : d.SameBase e) :
    c.SameBase e where
  started := h₂.started
  topFrame := h₂.topFrame.trans h₁.topFrame
  frames := h₂.frames.trans h₁.frames
  marks := h₂.marks.trans h₁.marks
  blocks := h₂.blocks.trans h₁.blocks
  scopes h := h₂.scopes (h₁.scopes h)

structure Context.Step (c d : Context H) : Prop where
  level : c.safeLevel ≤ maxSafeLevel -> c.safeLevel ≤ d.safeLevel ∧ d.safeLevel ≤ maxSafeLevel
  host : d.host = c.host
  config : d.config = c.config
  base : c.started = true -> c.SameBase d

def Context.fixture (c : Context H) :=
  (c.safeLevel, c.host, c.config, c.started, c.topFrame, c.frames.base, c.marks.base,
    c.blocks.base, c.scopes.base)

namespace Context.Step

theorem of_eq {c d : Context H} (hlevel : d.safeLevel = c.safeLevel) (hhost : d.host = c.host)
    (hconfig : d.config = c.config) (hbase : c.started = true -> c.SameBase d) : c.Step d where
  level h := by
    rw [hlevel]
    exact ⟨Nat.le_refl _, h⟩
  host := hhost
  config := hconfig
  base := hbase

theorem of_fixture {c d : Context H} (h : d.fixture = c.fixture) : c.Step d := by
  simp only [fixture, Prod.mk.injEq] at h
  obtain ⟨hlevel, hhost, hconfig, hstarted, htop, hframes, hmarks, hblocks, hscopes⟩ := h
  refine of_eq hlevel hhost hconfig fun hc => ?_
  exact ⟨hstarted.trans hc, htop, hframes, hmarks, hblocks, fun hne => hscopes ▸ hne⟩

theorem refl (c : Context H) : c.Step c :=
  of_fixture rfl

theorem trans {c d e : Context H} (h₁ : c.Step d) (h₂ : d.Step e) : c.Step e where
  level h := by
    obtain ⟨hcd, hd⟩ := h₁.level h
    obtain ⟨hde, he⟩ := h₂.level hd
    exact ⟨Nat.le_trans hcd hde, he⟩
  host := h₂.host.trans h₁.host
  config := h₂.config.trans h₁.config
  base h := (h₁.base h).trans (h₂.base (h₁.base h).started)

end Context.Step

def Contract.stepping : Contract H where
  Holds := fun _ => True
  Links := Context.Step
  Faults := fun _ => True
  refl := .refl
  trans := .trans

/-- The run takes only steps that a single operation may take. -/
def Run.Steps (run : Run ε H α) : Prop :=
  run.Keeps Contract.stepping

namespace Run.Steps

theorem of_after {run : Run ε H α} (h : ∀ c : Context H, c.Step (run.after c)) : run.Steps :=
  fun c _ => Contract.Allows.of_after (fun _ => trivial) ⟨trivial, h c⟩

theorem step {run : Run ε H α} (h : run.Steps) (c : Context H) : c.Step (run.after c) :=
  (Contract.Allows.after (h c trivial)).2

theorem of_looks {run : Run ε H α} (h : run.Looks) : run.Steps := by
  refine of_after fun c => ?_
  rcases h c with ⟨a, hr⟩ | ⟨exit, hr⟩
  · rw [after_of_ok hr]
    exact .refl c
  · rw [after_of_error hr]
    exact .refl c

theorem of_ok {run : Run ε H α} (h : ∀ c : Context H, ∃ a d, run c = .ok a d ∧ c.Step d) :
    run.Steps := by
  refine of_after fun c => ?_
  obtain ⟨a, d, hr, hstep⟩ := h c
  rw [after_of_ok hr]
  exact hstep

theorem modifyGet {change : Context H -> α × Context H}
    (h : ∀ c : Context H, c.Step (change c).2) :
    (MonadStateOf.modifyGet change : Run ε H α).Steps :=
  of_ok fun c => ⟨(change c).1, (change c).2, rfl, h c⟩

theorem bind {run : Run ε H α} {next : α -> Run ε H β} (h : run.Steps)
    (hn : ∀ a, (next a).Steps) : (run >>= next).Steps :=
  Run.Keeps.bind h hn

theorem pure (a : α) : (Pure.pure a : Run ε H α).Steps := Run.Keeps.pure a

theorem get : (MonadState.get : Run ε H (Context H)).Steps := Run.Keeps.get

end Run.Steps

theorem step_start (c : Context H) (processId : Int64) : c.Step (c.start processId) := by
  unfold Context.start
  split
  · exact .refl c
  · next hnew => exact .of_eq rfl rfl rfl fun h => absurd h hnew

theorem Context.Change.step {c d : Context H} (h : c.Change effects d) : c.Step d := by
  cases h with
  | start processId _ => exact step_start c processId
  | popFrame _ hpop =>
      exact .of_eq rfl rfl rfl fun hc => ⟨hc, rfl, Stack.base_pop hpop, rfl, rfl, id⟩
  | popBlock _ hpop =>
      exact .of_eq rfl rfl rfl fun hc => ⟨hc, rfl, rfl, rfl, Stack.base_pop hpop, id⟩
  | scopes _ hbase => exact .of_eq rfl rfl rfl fun hc => ⟨hc, rfl, rfl, rfl, rfl, hbase⟩
  | marks _ hbase => exact .of_eq rfl rfl rfl fun hc => ⟨hc, rfl, rfl, hbase, rfl, id⟩
  | raising hlevel => exact ⟨hlevel, rfl, rfl, fun hc => ⟨hc, rfl, rfl, rfl, rfl, id⟩⟩
  | _ => exact .of_fixture rfl

theorem Operation.steps {run : Run ε H α} (h : Operation effects run) : run.Steps :=
  h.within.keepsAll (fun _ => trivial) fun _ hchange => ⟨trivial, hchange.step⟩

/-! ## Runs that are no single operations -/

theorem newArray_steps (items : List Value) : (newArray items : Run ε H _).Steps :=
  .modifyGet fun _ => .of_fixture rfl

theorem packArgs_steps (args : List Value) : (packArgs args : Run ε H _).Steps :=
  .modifyGet fun _ => .of_fixture rfl

theorem openFrame_steps (frame : Frame) : (openFrame frame : Run ε H _).Steps :=
  .of_ok fun _ => ⟨_, _, rfl, .of_fixture rfl⟩

theorem enterBlock_steps (cls : Option (Ref .module)) : (enterBlock cls : Run ε H _).Steps := by
  refine Operation.currentScope.steps.bind fun scope => Steps.get.bind fun c => ?_
  refine Operation.popBlock.steps.bind fun block => ?_
  refine Steps.bind (.modifyGet fun _ => .of_fixture rfl) fun _ => ?_
  refine Steps.bind (.modifyGet fun _ => .of_fixture rfl) fun _ => ?_
  refine (Operation.setTopScope block.scope).steps.bind fun _ => ?_
  refine Steps.bind (.modifyGet fun _ => .of_fixture rfl) fun _ => ?_
  exact (Operation.pushClass _).steps.bind fun _ => .pure _

theorem leaveBlock_steps (block : Block H.Body) (suspended : Suspended) :
    (leaveBlock block suspended : Run ε H _).Steps := by
  refine Operation.popClass.steps.bind fun _ => ?_
  refine Steps.bind (.modifyGet fun _ => .of_fixture rfl) fun _ => ?_
  refine (Operation.pushBlock block).steps.bind fun _ => Operation.popFrame.steps.bind fun _ => ?_
  refine Steps.bind (.modifyGet fun _ => .of_fixture rfl) fun _ => ?_
  exact (Operation.setTopScope suspended.scope).steps.bind fun _ => .pure _

end ExecutionContext
