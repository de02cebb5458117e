import ExecutionContext.Context.Report
import ExecutionContext.Context.Start
import ExecutionContext.Proofs.ArrayCycles
import ExecutionContext.Proofs.ConstantLookup
import ExecutionContext.Proofs.Escape
import ExecutionContext.Proofs.Refusal

/-! # The effects of single operations

An operation changes a context in small steps. Most of these no contract of runs has to rule
out: they write variables, make values, or raise the safe level. The others are effects, and a
refusal counts as one. What an operation may do is said once, by its effects; every contract
follows from what it makes of the steps that they allow.
-/

namespace ExecutionContext

variable {H : Host} {ε α β : Type}

/-- What an operation may do beyond writing variables and making values. `ns` replaces the namespace
of the context, `naming` gives one to a frame that has none, and `values`, `frames`, `levels` and
`bindings` are changes through handles. -/
inductive Effect where
  | start
  | stacks
  | pushBlock
  | ns
  | naming
  | chain
  | values
  | frames
  | levels
  | bindings
  | refusal
deriving DecidableEq

variable {effects : List Effect}

/-- A small change that the effects cover. -/
inductive Context.Change (effects : List Effect) : Context H -> Context H -> Prop where
  | start {c : Context H} (processId : Int64) : .start ∈ effects ->
      Change effects c (c.start processId)
  -- A new frame has the present namespace.
  | pushFrame {c : Context H} (frame : Frame) : .stacks ∈ effects -> frame.ns = c.ns ->
      Change effects c
        { c with
          frameCells := (c.frameCells.alloc frame).2
          frames := c.frames.push (c.frameCells.alloc frame).1 }
  | popFrame {c : Context H} {frame : Ref .frame} {frames : Stack (Ref .frame)} :
      .stacks ∈ effects -> c.frames.pop = .ok (frame, frames) ->
      Change effects c { c with frames := frames }
  | popBlock {c : Context H} {block : Block H.Body} {blocks : Stack (Block H.Body)} :
      .stacks ∈ effects -> c.blocks.pop = .ok (block, blocks) ->
      Change effects c { c with blocks := blocks }
  | scopes {c : Context H} {scopes : Stack (Ref .scope)} : .stacks ∈ effects ->
      (c.scopes.base ≠ [] -> scopes.base ≠ []) -> Change effects c { c with scopes := scopes }
  | marks {c : Context H} {marks : Stack Attachment} : .stacks ∈ effects ->
      marks.base = c.marks.base -> Change effects c { c with marks := marks }
  | classes {c : Context H} (classes : OpenClass (Ref .module)) : .stacks ∈ effects ->
      Change effects c { c with classes := classes }
  | pushBlock {c : Context H} (block : Block H.Body) : .pushBlock ∈ effects ->
      Change effects c { c with blocks := c.blocks.push block }
  | ns {c : Context H} (ns : Option Namespace) : .ns ∈ effects -> Change effects c { c with ns := ns }
  | naming {c : Context H} {frame : Ref .frame} (ns : Namespace) : .naming ∈ effects ->
      (c.frameCells.read frame).ns = none ->
      Change effects c
        { c with
          frameCells := c.frameCells.modify frame (fun f => { f with ns := some ns })
          ns := c.ns.or (some ns) }
  | chain {c : Context H} (chain : Chain) : .chain ∈ effects ->
      Change effects c { c with chain := chain }
  | values {c : Context H} (heap : Heap) : .values ∈ effects ->
      Change effects c { c with heap := heap }
  | frames {c : Context H} (cells : Arena .frame Frame) : .frames ∈ effects ->
      Change effects c { c with frameCells := cells }
  | levels {c : Context H} (levels : Levels) : .levels ∈ effects ->
      Change effects c { c with levels := levels }
  | bindings {c : Context H} (bindings : Bindings) : .bindings ∈ effects ->
      Change effects c { c with bindings := bindings }
  -- What any operation may do.
  | setDynamic {c : Context H} (name : String) (value : Value) :
      Change effects c
        { c with
          chain := (c.chain.set c.bindings name value).1
          bindings := (c.chain.set c.bindings name value).2 }
  | making {c : Context H} {heap : Heap} : (c.heap.Closed -> c.heap.Extends heap) ->
      c.heap.KeepsNames heap -> Change effects c { c with heap := heap }
  | raising {c : Context H} {level : Nat} :
      (c.safeLevel ≤ maxSafeLevel -> c.safeLevel ≤ level ∧ level ≤ maxSafeLevel) ->
      Change effects c { c with safeLevel := level }
  | aside {c : Context H} {scopeCells : Arena .scope Scope} {globals : Globals}
      {registry : Registry} {visibility : Visibility} {wrapper : Option (Ref .module)}
      {sourceFile : String} {sourceLine evalDepth : Nat} {errors : ErrorStream}
      {blockCount : Nat} :
      Change effects c
        { c with
          scopeCells := scopeCells
          globals := globals
          registry := registry
          visibility := visibility
          wrapper := wrapper
          sourceFile := sourceFile
          sourceLine := sourceLine
          evalDepth := evalDepth
          errors := errors
          blockCount := blockCount }

abbrev Context.Changed (effects : List Effect) : Context H -> Context H -> Prop :=
  Relation.ReflTransGen (Context.Change effects)

def Contract.changing (effects : List Effect) : Contract H where
  Holds _ := True
  Links := Context.Changed effects
  Faults _ := True
  refl _ := .refl
  trans := .trans

/-- The run has no effects but these. -/
structure Run.Within (effects : List Effect) (run : Run ε H α) : Prop where
  keeps : run.Keeps (.changing effects)
  raises : run.Raises fun _ => .refusal ∈ effects

namespace Run.Within

theorem of_changed {run : Run ε H α} (h : ∀ c : Context H, c.Changed effects (run.after c))
    (hr : run.Raises fun _ => .refusal ∈ effects) : run.Within effects :=
  ⟨fun c _ => Contract.Allows.of_after (fun _ => trivial) ⟨trivial, h c⟩, hr⟩

theorem changed {run : Run ε H α} (h : run.Within effects) (c : Context H) :
    c.Changed effects (run.after c) :=
  (h.keeps c trivial).after.2

theorem silent {run : Run ε H α} (h : run.Within []) : run.Raises fun _ => False :=
  fun c signal d hr => absurd (h.raises c signal d hr) List.not_mem_nil

theorem pure (a : α) : (Pure.pure a : Run ε H α).Within effects :=
  ⟨.pure a, .pure a⟩

theorem get : (MonadState.get : Run ε H (Context H)).Within effects :=
  ⟨.get, .get⟩

theorem bind {run : Run ε H α} {next : α -> Run ε H β} (h : run.Within effects)
    (hn : ∀ a, (next a).Within effects) : (run >>= next).Within effects :=
  ⟨h.keeps.bind fun a => (hn a).keeps, h.raises.bind fun a => (hn a).raises⟩

theorem of_ok {run : Run ε H α}
    (h : ∀ c : Context H, ∃ a d, run c = .ok a d ∧ c.Changed effects d) : run.Within effects := by
  refine of_changed (fun c => ?_) fun c signal e he => ?_
  · obtain ⟨a, d, hr, hchanged⟩ := h c
    rw [after_of_ok hr]
    exact hchanged
  · obtain ⟨a, d, hr, _⟩ := h c
    cases hr.symm.trans he

theorem modifyGet {change : Context H -> α × Context H}
    (h : ∀ c : Context H, c.Change effects (change c).2) :
    (MonadStateOf.modifyGet change : Run ε H α).Within effects :=
  of_ok fun c => ⟨(change c).1, (change c).2, rfl, .single (h c)⟩

/-- A run that looks at the context may be refused. -/
theorem of_looks {run : Run ε H α} (h : run.Looks) (hrefusal : .refusal ∈ effects) :
    run.Within effects := by
  refine of_changed (fun c => ?_) fun _ _ _ _ => hrefusal
  rcases h c with ⟨a, hr⟩ | ⟨exit, hr⟩
  · rw [after_of_ok hr]
  · rw [after_of_error hr]

theorem failWith (cause : Cause) (h : .refusal ∈ effects) :
    (ExecutionContext.failWith cause : Run Failure H α).Within effects :=
  of_looks (Looks.failWith cause) h

/-- Reading one part of the context, unless that breaks the stack discipline. -/
theorem reading (part : Context H -> Except Fault α) :
    (do ofFault (part (← MonadState.get)) : Run ε H α).Within effects := by
  refine of_changed (fun c => ?_) ((Tidy.reading part).raises _)
  rw [after, bind_of_ok (get_apply c)]
  cases part c with
  | ok found => exact .refl
  | error fault => exact .refl

/-- Replacing one part of the context, unless that breaks the stack discipline. -/
theorem replacing {γ : Type} (part : Context H -> Except Fault (α × γ))
    (put : Context H -> γ -> Context H)
    (h : ∀ c a s, part c = .ok (a, s) -> c.Change effects (put c s)) :
    (do
      let c ← MonadState.get
      let (a, s) ← ofFault (part c)
      MonadStateOf.set (put c s)
      return a : Run ε H α).Within effects := by
  refine of_changed (fun c => ?_) fun c signal d hr => ?_
  · simp only [after, bind_of_ok (get_apply c)]
    cases hpart : part c with
    | ok found => exact .single (h c found.1 found.2 hpart)
    | error fault => exact .refl
  · rw [bind_of_ok (get_apply c)] at hr
    cases hpart : part c with
    | ok found =>
        rw [hpart] at hr
        cases hr
    | error fault =>
        rw [hpart] at hr
        cases hr

end Run.Within

open Run

/-! ## Stacks and blocks -/

theorem Stack.base_pop {stack rest : Stack α} {entry : α} (h : stack.pop = .ok (entry, rest)) :
    rest.base = stack.base := by
  unfold Stack.pop at h
  cases hlive : stack.live with
  | nil => simp [hlive] at h
  | cons top live =>
      simp only [hlive, Except.ok.injEq, Prod.mk.injEq] at h
      rw [← h.2]

theorem Stack.base_setTop {stack replaced : Stack α} {entry old : α}
    (h : stack.setTop entry = .ok (old, replaced)) (hbase : stack.base ≠ []) :
    replaced.base ≠ [] := by
  unfold Stack.setTop at h
  split at h <;> cases h
  · exact hbase
  · exact List.cons_ne_nil _ _

theorem currentFrame_within : (currentFrame : Run ε H _).Within effects :=
  .reading fun c => c.frames.current

theorem currentScope_within : (currentScope : Run ε H _).Within effects :=
  .reading fun c => c.scopes.current

theorem currentMark_within : (currentMark : Run ε H _).Within effects :=
  .reading fun c => c.marks.current

section Stacks

variable (h : .stacks ∈ effects)
include h

theorem popFrame_within : (popFrame : Run ε H _).Within effects :=
  .replacing (fun c => c.frames.pop) (fun c frames => { c with frames := frames })
    fun _ _ _ hpop => .popFrame h hpop

theorem popBlock_within : (popBlock : Run ε H _).Within effects :=
  .replacing (fun c => c.blocks.pop) (fun c blocks => { c with blocks := blocks })
    fun _ _ _ hpop => .popBlock h hpop

theorem popMark_within : (popMark : Run ε H _).Within effects :=
  .replacing (fun c => c.marks.pop) (fun c marks => { c with marks := marks })
    fun _ _ _ hpop => .marks h (Stack.base_pop hpop)

theorem popScope_within : (popScope : Run ε H _).Within effects :=
  .replacing (fun c => c.scopes.pop) (fun c scopes => { c with scopes := scopes })
    fun _ _ _ hpop => .scopes h fun hbase => by rwa [Stack.base_pop hpop]

theorem popClass_within : (popClass : Run ε H _).Within effects :=
  .replacing (fun c => c.classes.pop) (fun c classes => { c with classes := classes })
    fun _ _ classes _ => .classes classes h

theorem setTopScope_within (scope : Ref .scope) : (setTopScope scope : Run ε H _).Within effects :=
  .replacing (fun c => c.scopes.setTop scope) (fun c scopes => { c with scopes := scopes })
    fun _ _ _ hset => .scopes h (Stack.base_setTop hset)

theorem pushMark_within (mark : Attachment) : (pushMark mark : Run ε H _).Within effects :=
  .modifyGet fun _ => .marks h rfl

theorem pushClass_within (cls : Option (Ref .module)) :
    (pushClass cls : Run ε H _).Within effects :=
  .modifyGet fun _ => .classes _ h

theorem setClass_within (cls : Option (Ref .module)) : (setClass cls : Run ε H _).Within effects :=
  .of_ok fun _ => ⟨_, _, rfl, .single (.classes _ h)⟩

theorem pushScope_within (scope : Scope) : (pushScope scope : Run ε H _).Within effects := by
  refine .of_ok fun c => ⟨_, _, rfl, ?_⟩
  have hpushed : c.Changed effects
      { c with scopes := c.scopes.push (c.scopeCells.alloc scope).1 } := .single (.scopes h id)
  exact hpushed.tail .aside

theorem pushFrame_within (hrefusal : .refusal ∈ effects) (receiver : Value)
    (method : Option String) : (pushFrame receiver method : Run Failure H _).Within effects := by
  refine Within.bind (.of_looks Looks.checkDepth hrefusal) fun _ => ?_
  exact currentMark_within.bind fun mark =>
    .of_ok fun c => ⟨_, _, rfl, .single (.pushFrame _ h rfl)⟩

end Stacks

theorem pushBlock_within (h : .pushBlock ∈ effects) (block : Block H.Body) :
    (pushBlock block : Run ε H _).Within effects :=
  .modifyGet fun _ => .pushBlock block h

theorem newBlockWithSelf_within (params : Params) (code : Code H.Body) (receiver : Value) :
    (newBlockWithSelf params code receiver : Run ε H _).Within effects := by
  refine currentFrame_within.bind fun frame => currentScope_within.bind fun scope => ?_
  exact currentMark_within.bind fun mark => .of_ok fun _ => ⟨_, _, rfl, .single .aside⟩

theorem newBlock_within (params : Params) (code : Code H.Body) :
    (newBlock params code : Run ε H _).Within effects :=
  Within.get.bind fun _ => newBlockWithSelf_within params code _

/-! ## Variables and namespaces -/

theorem setDynamic_within (name : String) (value : Value) :
    (setDynamic name value : Run ε H _).Within effects :=
  .modifyGet fun _ => .setDynamic name value

theorem setChain_within (h : .chain ∈ effects) (chain : Chain) :
    (setChain chain : Run ε H _).Within effects :=
  .modifyGet fun _ => .chain chain h

theorem setNamespace_within (h : .ns ∈ effects) (ns : Option Namespace) :
    (setNamespace ns : Run ε H _).Within effects :=
  .modifyGet fun _ => .ns ns h

theorem setSpecialSlot_within (slot : Nat) (value : Value) :
    (setSpecialSlot slot value : Run ε H _).Within effects :=
  currentScope_within.bind fun _ => .modifyGet fun _ => .aside

theorem setLexicalModule_within (hlevels : .levels ∈ effects) (hnaming : .naming ∈ effects)
    (module : Ref .module) : (setLexicalModule module : Run ε H _).Within effects := by
  refine currentFrame_within.bind fun frame => .of_ok fun c => ?_
  rw [bind_of_ok (get_apply c)]
  cases hns : (c.frameCells.read frame).ns with
  | some ns => exact ⟨_, _, rfl, .single (.levels _ hlevels)⟩
  | none =>
      let made := Namespace.top c.levels module
      have hlevel : c.Changed effects { c with levels := made.2 } := .single (.levels _ hlevels)
      exact ⟨_, _, rfl, hlevel.tail (.naming made.1 hnaming hns)⟩

/-! ## The safe level and globals -/

theorem setSafeLevel_of_le {c : Context H} {level : Nat} (h : c.safeLevel ≤ level) :
    setSafeLevel level c = .ok () { c with safeLevel := min level maxSafeLevel } := by
  simp only [setSafeLevel, bind_apply, get_apply, if_neg (Nat.not_lt.mpr h)]
  rfl

/-- A write of the safe level is refused, or raises it. -/
theorem after_setSafeLevel (level : Nat) (c : Context H) : ∃ raised,
    (c.safeLevel ≤ maxSafeLevel -> c.safeLevel ≤ raised ∧ raised ≤ maxSafeLevel) ∧
    (setSafeLevel level : Run Failure H Unit).after c = { c with safeLevel := raised } := by
  by_cases hlow : level < c.safeLevel
  · exact ⟨_, fun h => ⟨Nat.le_refl _, h⟩, after_of_error (setSafeLevel_refused hlow)⟩
  · have hle := Nat.not_lt.mp hlow
    refine ⟨_, fun h => ⟨?_, Nat.min_le_right _ _⟩, after_of_ok (setSafeLevel_of_le hle)⟩
    exact Nat.le_min.mpr ⟨hle, h⟩

theorem setSafeLevel_within (h : .refusal ∈ effects) (level : Nat) :
    (setSafeLevel level : Run Failure H Unit).Within effects := by
  refine .of_changed (fun c => ?_) fun _ _ _ _ => h
  obtain ⟨raised, hraised, hafter⟩ := after_setSafeLevel level c
  rw [hafter]
  exact .single (.raising hraised)

/-- A special variable is kept in a scope, or is the safe level. -/
theorem after_writeSpecial (kind : SpecialGlobal) (value : Value) (c : Context H) :
    ∃ cells level, (c.safeLevel ≤ maxSafeLevel -> c.safeLevel ≤ level ∧ level ≤ maxSafeLevel) ∧
      (writeSpecial kind value : Run Failure H Unit).after c =
        { c with scopeCells := cells, safeLevel := level } := by
  have hslot : ∀ slot, ∃ cells, (setSpecialSlot slot value : Run Failure H Unit).after c =
      { c with scopeCells := cells } := by
    intro slot
    unfold setSpecialSlot modifyScope
    rcases Looks.currentScope (ε := Failure) c with ⟨scope, hscope⟩ | ⟨exit, hscope⟩
    · rw [after, bind_of_ok hscope]
      exact ⟨_, rfl⟩
    · rw [after_of_error (bind_of_error hscope)]
      exact ⟨_, rfl⟩
  have hsame : c.safeLevel ≤ maxSafeLevel ->
      c.safeLevel ≤ c.safeLevel ∧ c.safeLevel ≤ maxSafeLevel := fun h => ⟨Nat.le_refl _, h⟩
  cases kind with
  | lastLine =>
      obtain ⟨cells, h⟩ := hslot 0
      exact ⟨cells, c.safeLevel, hsame, h⟩
  | lastMatch =>
      obtain ⟨cells, h⟩ := hslot 1
      exact ⟨cells, c.safeLevel, hsame, h⟩
  | safeLevel =>
      cases value with
      | int requested =>
          by_cases hlow : requested.toInt < c.safeLevel
          · rw [after_of_error (writeSafeLevel_lowered hlow)]
            exact ⟨_, _, hsame, rfl⟩
          · simp only [writeSpecial, after, bind_of_ok (get_apply c), if_neg hlow]
            exact ⟨c.scopeCells, after_setSafeLevel _ c⟩
      | _ => exact ⟨_, _, hsame, rfl⟩

theorem changed_globalSet (name : String) (value : Value) (c : Context H) :
    c.Changed effects ((globalSet name value : Run Failure H Value).after c) := by
  rcases after_globalSet_cases name value c with h | ⟨globals, _, h⟩ | ⟨kind, h⟩
  · rw [h]
  · rw [h]
    exact .single .aside
  · obtain ⟨cells, level, hlevel, hwrite⟩ := after_writeSpecial kind value c
    rw [h, hwrite]
    exact .tail (.single (.raising hlevel)) .aside

theorem globalSet_within (h : .refusal ∈ effects) (name : String) (value : Value) :
    (globalSet name value : Run Failure H Value).Within effects :=
  .of_changed (changed_globalSet name value) fun _ _ _ _ => h

theorem globalGet_within (name : String) : (globalGet name : Run ε H Value).Within effects :=
  .of_ok fun c => ⟨_, _, globalGet_eq name c, .single .aside⟩

theorem aliasGlobal_within (h : .refusal ∈ effects) (old new : String) :
    (aliasGlobal old new : Run Failure H Unit).Within effects := by
  refine .of_changed (fun c => ?_) fun _ _ _ _ => h
  by_cases hsafe : maxSafeLevel ≤ c.safeLevel
  · rw [after_of_error (aliasGlobal_refused hsafe old new)]
  · simp only [after, aliasGlobal, bind_apply, get_apply, if_neg hsafe]
    exact .single .aside

/-! ## Classes -/

theorem coreClasses_within : (coreClasses : Run ε H _).Within effects := by
  refine .of_changed (fun c => ?_) fun c signal d h => ?_
  · rcases coreClasses_looks c with ⟨core, h⟩ | ⟨exit, h⟩
    · rw [after_of_ok h]
    · rw [after_of_error h]
  · unfold coreClasses at h
    split at h <;> cases h

theorem exceptionClasses_within : (exceptionClasses : Run ε H _).Within effects := by
  refine .of_changed (fun c => ?_) fun c signal d h => ?_
  · unfold after exceptionClasses
    cases c.exceptions with
    | some exceptions => exact .refl
    | none => exact .refl
  · unfold exceptionClasses at h
    split at h <;> cases h

theorem objectClass_within : (objectClass : Run ε H _).Within effects :=
  coreClasses_within.bind fun _ => .pure _

theorem setConstant_within (module : Ref .module) (name : String) (value : Value) :
    (setConstant module name value : Run ε H Unit).Within effects :=
  .modifyGet fun c => .making (fun _ => .of_arrays_eq rfl) (.setConstant c.heap module name value)

theorem defineConstant_within (name : String) (value : Value) :
    (defineConstant name value : Run ε H Unit).Within effects :=
  objectClass_within.bind fun object => setConstant_within object name value

theorem Context.changed_adding (c : Context H) (registry : Registry) (made : Module) :
    c.Changed effects { c with registry := registry, heap := c.heap.adding made } := by
  have hmade : c.Changed effects { c with heap := c.heap.adding made } :=
    .single (.making (fun _ => .of_arrays_eq rfl) (.adding c.heap made))
  exact hmade.tail .aside

theorem defineClass_within (name : String) (superclass : Option (Ref .module)) :
    (defineClass name superclass : Run ε H _).Within effects := by
  refine objectClass_within.bind fun object => .of_ok fun c => ⟨_, _, rfl, ?_⟩
  refine (c.changed_adding _ _).tail (.making (fun _ => .of_arrays_eq rfl) ?_)
  exact .setConstant _ object name _

theorem defineModule_within (name : String) :
    (defineModule name : Run ε H _).Within effects := by
  have hbound : ∀ c : Context H,
      (do defineConstant name (.module (c.registry.defineModule c.heap name).1)
          return (c.registry.defineModule c.heap name).1 : Run ε H _).Within effects :=
    fun c => (defineConstant_within name _).bind fun _ => .pure _
  refine .of_changed (fun c => ?_) fun c => (hbound c).raises _
  exact (c.changed_adding _ _).trans ((hbound c).changed _)

theorem defineClassUnder_within (h : .refusal ∈ effects) (name superclass : String) :
    (defineClassUnder name superclass : Run Failure H _).Within effects := by
  refine Within.get.bind fun c => ?_
  split
  · exact defineClass_within name _
  · exact .failWith _ h

theorem classOf_within (value : Value) : (classOf value : Run ε H _).Within effects := by
  refine coreClasses_within.bind fun core => Within.get.bind fun c => ?_
  cases value with
  | bool value => cases value <;> exact .pure _
  | _ => exact .pure _

/-! ## Loading and reporting -/

theorem compile_within (h : .refusal ∈ effects) (parse : Parser α) :
    (compile parse : Run Failure H α).Within effects := by
  refine currentScope_within.bind fun scope => .of_changed (fun c => ?_) fun _ _ _ _ => h
  simp only [after, bind_of_ok (get_apply c)]
  cases parse (c.scopeCells.read scope).names with
  | error failure => exact .refl
  | ok parsed =>
      obtain ⟨tree, names⟩ := parsed
      cases names with
      | none => exact .refl
      | some names => exact .single .aside

theorem searchPath_within : (searchPath : Run ε H _).Within effects :=
  (globalGet_within _).bind fun _ => Within.get.bind fun _ => .pure _

theorem findFile_within (h : .refusal ∈ effects) (found : Path -> Bool) (path : Path) :
    (findFile found path : Run Failure H Path).Within effects := by
  unfold findFile
  extract_lets rest
  have hrest : ∀ directories, (rest directories).Within effects := by
    intro directories
    simp only [rest]
    split
    · exact .pure _
    · exact .failWith _ h
  split
  · exact hrest []
  · exact searchPath_within.bind hrest

def replaceSearchPath (path : Value) : Run Failure H Unit := fun c =>
  match globalSet searchPathName path c with
  | .error (.raised _) c => .ok () c
  | .ok _ c => .ok () c
  | .error exit c => .error exit c

theorem after_replaceSearchPath (path : Value) (c : Context H) :
    (replaceSearchPath path : Run Failure H Unit).after c =
      (globalSet searchPathName path : Run Failure H Value).after c := by
  unfold Run.after replaceSearchPath
  cases globalSet searchPathName path c with
  | ok value d => rfl
  | error exit d =>
      cases exit with
      | _ => rfl

theorem replaceSearchPath_within (path : Value) :
    (replaceSearchPath path : Run Failure H Unit).Within effects := by
  refine .of_changed (fun c => ?_) fun c failure d h => ?_
  · rw [after_replaceSearchPath]
    exact changed_globalSet searchPathName path c
  · unfold replaceSearchPath at h
    cases hset : globalSet searchPathName path c with
    | ok value e =>
        rw [hset] at h
        cases h
    | error exit e =>
        rw [hset] at h
        cases exit <;> cases h

theorem Context.change_newTexts (c : Context H) (texts : List String) :
    c.Change effects { c with heap := (c.heap.newTexts texts).2 } :=
  .making (fun _ => .of_arrays_eq (Heap.arrays_newTexts c.heap texts))
    (.of_modules (Heap.modules_newTexts c.heap texts))

/-- A new array of values that are no arrays, and of what an array contains. -/
theorem Context.change_newArray (c : Context H) {front : List Value}
    (hfront : ∀ v ∈ front, ∀ ref, v ≠ .array ref) (old : Value) :
    c.Change effects
      { c with heap := (c.heap.newArray (front ++ (c.heap.items? old).getD [])).2 } := by
  refine .making (fun hclosed => Heap.extends_newArray ?_) (.of_modules rfl)
  refine List.forall_mem_append.mpr ⟨fun v hmem => Heap.holds_of_not_array (hfront v hmem), ?_⟩
  cases hitems : c.heap.items? old with
  | none => exact fun _ hmem => absurd hmem List.not_mem_nil
  | some items => exact hclosed.items hitems

def searchFront (directories : List Path) (list : Option Bytes) : List Path :=
  directories ++ (list.map Path.searchEntries).getD []

/-- The texts are made first; the new array has them in front of what the old one contains. -/
theorem extendSearchPath_eq (directories : List Path) (list : Option Bytes) (c : Context H) :
    let texts := c.heap.newTexts ((searchFront directories list).map Path.lossy)
    let made := texts.2.newArray
      (texts.1 ++ (texts.2.items? (c.globalValue searchPathName)).getD [])
    extendSearchPath directories list c = replaceSearchPath made.1
      { c with heap := made.2, globals := (c.globals.get searchPathName).2 } := by
  intro texts made
  have htexts : (newTexts ((searchFront directories list).map Path.lossy) : Run Failure H _) c =
      .ok texts.1 { c with heap := texts.2 } := rfl
  have hget := globalGet_eq (ε := Failure) searchPathName { c with heap := texts.2 }
  exact (bind_of_ok htexts).trans (bind_of_ok hget)

theorem extendSearchPath_within (directories : List Path) (list : Option Bytes) :
    (extendSearchPath directories list : Run Failure H Unit).Within effects := by
  have hmade : ∀ c : Context H, ∃ d path, c.Changed effects d ∧
      extendSearchPath directories list c = replaceSearchPath path d := by
    intro c
    let texts := c.heap.newTexts ((searchFront directories list).map Path.lossy)
    let made := texts.2.newArray
      (texts.1 ++ (texts.2.items? (c.globalValue searchPathName)).getD [])
    have htexts : c.Changed effects { c with heap := texts.2 } := .single (c.change_newTexts _)
    have harray : c.Changed effects { c with heap := made.2 } :=
      htexts.tail (Context.change_newArray { c with heap := texts.2 }
        (fun _ => Heap.not_array_of_mem_newTexts) (c.globalValue searchPathName))
    refine ⟨_, _, ?_, extendSearchPath_eq directories list c⟩
    exact harray.tail .aside
  refine .of_changed (fun c => ?_) fun c failure e h => ?_
  · obtain ⟨d, path, hchanged, heq⟩ := hmade c
    rw [after, heq]
    exact hchanged.trans ((replaceSearchPath_within path).changed d)
  · obtain ⟨d, path, _, heq⟩ := hmade c
    exact (replaceSearchPath_within path).raises d failure e (heq.symm.trans h)

theorem report_within (signal : Signal) : (report signal : Run ε H Unit).Within effects := by
  refine .of_changed (fun c => ?_) (Raises.get.bind fun c => ?_)
  · simp only [after, report, bind_of_ok (get_apply c)]
    cases signal.report? c.heap with
    | some text => exact .single .aside
    | none => exact .refl
  · split
    · exact .set _
    · exact .exhausted

end ExecutionContext
