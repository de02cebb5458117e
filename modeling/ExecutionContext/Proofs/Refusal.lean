import ExecutionContext.Context.Classes
import ExecutionContext.Context.Loading
import ExecutionContext.Proofs.Installation
import ExecutionContext.Proofs.Location

/-! # Refused operations change nothing

An operation that checks before it changes anything leaves the whole context as it was
when it is refused, and when it finds a stack empty that it needs. The steps of such an
operation fall into two parts: steps that only look, of which any may end it, and then
steps that change the context and cannot fail. Nothing is asked of the context.
-/

namespace ExecutionContext

variable {H : Host} {ε α β : Type}

/-! ## Looking first, changing last -/

namespace Run

/-- The run changes nothing, however it ends. -/
def Looks (run : Run ε H α) : Prop :=
  ∀ c, (∃ a, run c = .ok a c) ∨ ∃ exit, run c = .error exit c

def Succeeds (run : Run ε H α) : Prop :=
  ∀ c, ∃ a d, run c = .ok a d

/-- A run that does not answer changes nothing. -/
def Atomic (run : Run ε H α) : Prop :=
  ∀ c exit d, run c = .error exit d -> d = c

namespace Looks

theorem pure (a : α) : (Pure.pure a : Run ε H α).Looks :=
  fun _ => Or.inl ⟨a, rfl⟩

theorem get : (MonadState.get : Run ε H (Context H)).Looks :=
  fun c => Or.inl ⟨c, rfl⟩

theorem raise (signal : ε) : (Run.raise signal : Run ε H α).Looks :=
  fun _ => Or.inr ⟨.raised signal, rfl⟩

theorem failWith (cause : Cause) : (failWith cause : Run Failure H α).Looks :=
  fun _ => Or.inr ⟨_, rfl⟩

theorem ofFault (answer : Except Fault α) : (Run.ofFault answer : Run ε H α).Looks := by
  intro c
  cases answer with
  | ok a => exact Or.inl ⟨a, rfl⟩
  | error fault => exact Or.inr ⟨.fault fault, rfl⟩

theorem bind {run : Run ε H α} {next : α -> Run ε H β} (h : run.Looks)
    (hn : ∀ a, (next a).Looks) : (run >>= next).Looks := by
  intro c
  rcases h c with ⟨a, hr⟩ | ⟨exit, hr⟩
  · rw [bind_of_ok hr]
    exact hn a c
  · exact Or.inr ⟨exit, bind_of_error hr⟩

theorem signalling {run : Run Failure H α} (h : run.Looks) : run.signalling.Looks := by
  intro c
  unfold Run.signalling
  rcases h c with ⟨a, hr⟩ | ⟨exit, hr⟩
  · rw [hr]
    exact Or.inl ⟨a, rfl⟩
  · rw [hr]
    cases exit with
    | raised failure => exact Or.inr ⟨_, rfl⟩
    | fault fault => exact Or.inr ⟨_, rfl⟩
    | exhausted => exact Or.inr ⟨_, rfl⟩

theorem currentFrame : (currentFrame : Run ε H _).Looks :=
  get.bind fun c => ofFault c.frames.current

theorem currentScope : (currentScope : Run ε H _).Looks :=
  get.bind fun c => ofFault c.scopes.current

theorem currentMark : (currentMark : Run ε H _).Looks :=
  get.bind fun c => ofFault c.marks.current

theorem checkDepth : (checkDepth : Run Failure H Unit).Looks := by
  intro c
  rcases checkDepth_cases c with h | ⟨failure, h⟩
  · exact Or.inl ⟨(), h⟩
  · exact Or.inr ⟨_, h⟩

end Looks

namespace Succeeds

theorem pure (a : α) : (Pure.pure a : Run ε H α).Succeeds :=
  fun c => ⟨a, c, rfl⟩

theorem get : (MonadState.get : Run ε H (Context H)).Succeeds :=
  fun c => ⟨c, c, rfl⟩

theorem set (d : Context H) : (MonadStateOf.set d : Run ε H PUnit).Succeeds :=
  fun _ => ⟨⟨⟩, d, rfl⟩

theorem modifyGet (change : Context H -> α × Context H) :
    (MonadStateOf.modifyGet change : Run ε H α).Succeeds :=
  fun c => ⟨(change c).1, (change c).2, rfl⟩

theorem bind {run : Run ε H α} {next : α -> Run ε H β} (h : run.Succeeds)
    (hn : ∀ a, (next a).Succeeds) : (run >>= next).Succeeds := by
  intro c
  obtain ⟨a, d, hr⟩ := h c
  rw [bind_of_ok hr]
  exact hn a d

theorem openFrame (frame : Frame) : (openFrame frame : Run ε H _).Succeeds :=
  get.bind fun _ => (set _).bind fun _ => pure _

theorem pushScope (scope : Scope) : (pushScope scope : Run ε H _).Succeeds :=
  get.bind fun _ => (set _).bind fun _ => pure _

end Succeeds

namespace Atomic

theorem of_looks {run : Run ε H α} (h : run.Looks) : run.Atomic := by
  intro c exit d hr
  rcases h c with ⟨a, ha⟩ | ⟨other, he⟩
  · cases ha.symm.trans hr
  · cases he.symm.trans hr
    rfl

theorem of_succeeds {run : Run ε H α} (h : run.Succeeds) : run.Atomic := by
  intro c exit d hr
  obtain ⟨a, e, ha⟩ := h c
  cases ha.symm.trans hr

theorem bind {run : Run ε H α} {next : α -> Run ε H β} (h : run.Looks)
    (hn : ∀ a, (next a).Atomic) : (run >>= next).Atomic := by
  intro c exit d hr
  rcases h c with ⟨a, ha⟩ | ⟨other, he⟩
  · rw [bind_of_ok ha] at hr
    exact hn a c exit d hr
  · cases (bind_of_error he).symm.trans hr
    rfl

theorem bind_succeeds {run : Run ε H α} {next : α -> Run ε H β} (h : run.Atomic)
    (hn : ∀ a, (next a).Succeeds) : (run >>= next).Atomic := by
  intro c exit d hr
  cases hrun : run c with
  | ok a e =>
      obtain ⟨b, f, hb⟩ := hn a e
      cases ((bind_of_ok hrun).trans hb).symm.trans hr
  | error other e =>
      cases (bind_of_error hrun).symm.trans hr
      exact h c exit d hrun

end Atomic

end Run

/-! ## Single operations -/

open Run

theorem pushFrame_atomic (receiver : Value) (method : Option String) :
    (pushFrame receiver method : Run Failure H _).Atomic := by
  refine Atomic.bind Looks.checkDepth fun _ => Atomic.bind Looks.currentMark fun mark => ?_
  exact Atomic.bind Looks.get fun c => .of_succeeds (Succeeds.openFrame _)

theorem setSafeLevel_atomic (level : Nat) : (setSafeLevel level : Run Failure H Unit).Atomic := by
  refine Atomic.bind Looks.get fun c => ?_
  split
  · exact .of_looks (Looks.failWith _)
  · exact .of_succeeds (Succeeds.set _)

theorem secure_looks (level : Nat) : (secure level : Run Failure H Unit).Looks := by
  refine Looks.bind Looks.get fun c => ?_
  split
  · exact Looks.failWith _
  · exact Looks.pure ()

theorem aliasGlobal_atomic (old new : String) :
    (aliasGlobal old new : Run Failure H Unit).Atomic := by
  refine Atomic.bind Looks.get fun c => ?_
  split
  · exact .of_looks (Looks.failWith _)
  · exact .of_succeeds (Succeeds.set _)

theorem setSpecialSlot_atomic (slot : Nat) (value : Value) :
    (setSpecialSlot slot value : Run ε H Unit).Atomic :=
  Atomic.bind Looks.currentScope fun _ => .of_succeeds (Succeeds.modifyGet _)

theorem writeSpecial_atomic (kind : SpecialGlobal) (value : Value) :
    (writeSpecial kind value : Run Failure H Unit).Atomic := by
  cases kind with
  | safeLevel =>
      refine Atomic.bind Looks.get fun c => ?_
      cases value with
      | int requested =>
          dsimp only
          split
          · exact .of_looks (Looks.failWith _)
          · exact setSafeLevel_atomic _
      | _ => exact .of_looks (Looks.failWith _)
  | lastLine => exact setSpecialSlot_atomic _ _
  | lastMatch => exact setSpecialSlot_atomic _ _

def Context.globalValue (c : Context H) (name : String) : Value :=
  match (c.globals.get name).1 with
  | .value value => value
  | .special kind => c.readSpecial kind

theorem globalGet_eq (name : String) (c : Context H) :
    (globalGet name : Run ε H Value) c =
      .ok (c.globalValue name) { c with globals := (c.globals.get name).2 } := by
  simp only [globalGet, bind_apply, get_apply, set_apply, Context.globalValue]
  cases (c.globals.get name).1 with
  | value value => rfl
  | special kind => rfl

section GlobalSet

variable {c : Context H} {name : String} {value : Value}

theorem globalSet_refused {failure : Failure} (h : c.globals.set name value = .error failure) :
    globalSet name value c = .error (.raised (c.attach failure)) c := by
  simp only [globalSet, bind_apply, get_apply, h]
  rfl

theorem globalSet_stored {globals : Globals}
    (h : c.globals.set name value = .ok (.stored, globals)) :
    globalSet name value c = .ok value { c with globals := globals } := by
  simp only [globalSet, bind_apply, get_apply, h]
  rfl

theorem globalSet_special {kind : SpecialGlobal} {globals : Globals}
    (h : c.globals.set name value = .ok (.special kind, globals)) :
    globalSet name value c = (do
      writeSpecial kind value
      return value : Run Failure H Value) c := by
  simp only [globalSet, bind_apply, get_apply, h]
  rw [Globals.set_of_special h]
  rfl

/-- A write is refused and changes nothing, changes globals only, or is left to the context. -/
theorem after_globalSet_cases (name : String) (value : Value) (c : Context H) :
    (globalSet name value : Run Failure H Value).after c = c ∨
    (∃ globals, c.globals.set name value = .ok (.stored, globals) ∧
      (globalSet name value : Run Failure H Value).after c = { c with globals := globals }) ∨
    ∃ kind, (globalSet name value : Run Failure H Value).after c =
      (writeSpecial kind value : Run Failure H Unit).after c := by
  cases hset : c.globals.set name value with
  | error failure => exact Or.inl (after_of_error (globalSet_refused hset))
  | ok written =>
      obtain ⟨outcome, globals⟩ := written
      cases outcome with
      | stored => exact Or.inr (Or.inl ⟨globals, rfl, after_of_ok (globalSet_stored hset)⟩)
      | special kind =>
          refine Or.inr (Or.inr ⟨kind, ?_⟩)
          rw [after, globalSet_special hset]
          cases hwrite : (writeSpecial kind value : Run Failure H Unit) c with
          | ok done d =>
              rw [bind_of_ok hwrite, after_of_ok hwrite]
              rfl
          | error exit d => rw [bind_of_error hwrite, after_of_error hwrite]

end GlobalSet

theorem globalSet_atomic (name : String) (value : Value) :
    (globalSet name value : Run Failure H Value).Atomic := by
  intro c exit d hr
  cases hset : c.globals.set name value with
  | error failure =>
      cases (globalSet_refused hset).symm.trans hr
      rfl
  | ok written =>
      obtain ⟨outcome, globals⟩ := written
      cases outcome with
      | stored => cases (globalSet_stored hset).symm.trans hr
      | special kind =>
          have hwrite := (writeSpecial_atomic (H := H) kind value).bind_succeeds
            fun _ => Succeeds.pure value
          exact hwrite c exit d ((globalSet_special hset).symm.trans hr)

theorem coreClasses_looks : (coreClasses : Run ε H _).Looks := by
  intro c
  unfold coreClasses
  cases c.core with
  | some core => exact Or.inl ⟨core, rfl⟩
  | none => exact Or.inr ⟨_, rfl⟩

theorem objectClass_looks : (objectClass : Run ε H _).Looks :=
  coreClasses_looks.bind fun _ => Looks.pure _

theorem defineClass_atomic (name : String) (superclass : Option (Ref .module)) :
    (defineClass name superclass : Run ε H _).Atomic := by
  refine Atomic.bind objectClass_looks fun object => .of_succeeds ?_
  refine Succeeds.get.bind fun c => (Succeeds.set _).bind fun _ => ?_
  exact (Succeeds.modifyGet _).bind fun _ => Succeeds.pure _

theorem defineClassUnder_atomic (name superclass : String) :
    (defineClassUnder name superclass : Run Failure H _).Atomic := by
  refine Atomic.bind Looks.get fun c => ?_
  split
  · exact defineClass_atomic name _
  · exact .of_looks (Looks.failWith _)

theorem compile_atomic (parse : Parser α) : (compile parse : Run Failure H α).Atomic := by
  refine Atomic.bind Looks.currentScope fun scope => Atomic.bind Looks.get fun c => ?_
  split
  · exact .of_looks (Looks.raise _)
  · exact .of_looks (Looks.pure _)
  · exact .of_succeeds ((Succeeds.set _).bind fun _ => Succeeds.pure _)

/-! ## Entering the layers -/

theorem newBlockWithSelf_atomic (params : Params) (code : Code H.Body) (receiver : Value) :
    (newBlockWithSelf params code receiver : Run ε H _).Atomic := by
  refine Atomic.bind Looks.currentFrame fun frame => Atomic.bind Looks.currentScope fun scope => ?_
  refine Atomic.bind Looks.currentMark fun mark => .of_succeeds ?_
  exact Succeeds.get.bind fun c => (Succeeds.set _).bind fun _ => Succeeds.pure _

theorem enterBlock_atomic (cls : Option (Ref .module)) :
    (enterBlock cls : Run ε H _).Atomic := by
  intro c exit d hr
  cases hs : c.scopes.top? with
  | none =>
      have hscope : (currentScope : Run ε H _) c =
          .error (.fault (.underflow c.scopes.name)) c := by
        simp only [currentScope, bind_apply, get_apply, Stack.current, hs]
        rfl
      cases (bind_of_error hscope).symm.trans hr
      rfl
  | some scope =>
      simp only [enterBlock, bind_apply, currentScope_of_top? hs, get_apply, popBlock] at hr
      cases hp : c.blocks.pop with
      | error fault =>
          rw [hp] at hr
          cases hr
          rfl
      | ok popped =>
          -- The scope that was there can be replaced, and nothing else can fail.
          simp [hp, enterFrame, setTopScope, pushClass, Stack.setTop_of_top? hs] at hr

def Evaluator.idle : Evaluator H where
  limit := 0
  runBody := fun _ _ _ => Run.exhausted
  runCallback := fun _ _ _ => Run.exhausted
  bind := fun _ _ _ _ => Run.exhausted

namespace Layer

/-- The opening of a layer, up to where it first runs code of the host. -/
def entering : Layer H -> Run Signal H Unit
  | .yield _ _ cls _ => do
      let c ← get
      if !c.isBlockGiven || c.blocks.top?.isNone then
        Run.signalling (failWith .noBlockGiven)
      else
        let _ ← enterBlock cls
        return ()
  | l => do
      let _ ← l.opening .idle
      return ()

theorem entering_atomic (l : Layer H) : l.entering.Atomic := by
  cases l with
  | yield value receiver cls strict =>
      refine Atomic.bind Looks.get fun c => ?_
      split
      · exact .of_looks (Looks.signalling (Looks.failWith _))
      · exact (enterBlock_atomic cls).bind_succeeds fun _ => Succeeds.pure ()
  | iterate callback data =>
      refine Atomic.bind_succeeds (Atomic.bind Looks.get fun c => ?_) fun _ => Succeeds.pure ()
      refine (newBlockWithSelf_atomic _ _ _).bind_succeeds fun block => ?_
      refine (Succeeds.modifyGet _).bind fun _ => ?_
      exact (Succeeds.modifyGet _).bind fun _ => Succeeds.pure _
  | withBlock block =>
      refine Atomic.of_succeeds (Succeeds.bind ?_ fun _ => Succeeds.pure ())
      refine (Succeeds.modifyGet _).bind fun _ => (Succeeds.modifyGet _).bind fun _ => ?_
      exact Succeeds.pure _
  | invoke receiver method =>
      refine Atomic.bind_succeeds ?_ fun _ => Succeeds.pure ()
      refine Atomic.bind (Looks.signalling Looks.checkDepth) fun _ => ?_
      refine Atomic.bind Looks.currentMark fun mark => .of_succeeds ?_
      refine (Succeeds.modifyGet _).bind fun _ => Succeeds.get.bind fun c => ?_
      exact (Succeeds.openFrame _).bind fun _ => Succeeds.pure _
  | openModule module =>
      refine Atomic.bind_succeeds ?_ fun _ => Succeeds.pure ()
      refine Atomic.bind (Looks.signalling Looks.checkDepth) fun _ => ?_
      refine Atomic.bind Looks.currentMark fun mark => Atomic.bind Looks.get fun c => ?_
      refine .of_succeeds ((Succeeds.set _).bind fun _ => ?_)
      refine (Succeeds.openFrame _).bind fun _ => (Succeeds.pushScope _).bind fun _ => ?_
      refine (Succeeds.modifyGet _).bind fun _ => (Succeeds.modifyGet _).bind fun outer => ?_
      exact Succeeds.pure _
  | catchTag tag => exact .of_succeeds ((Succeeds.pure _).bind fun _ => Succeeds.pure ())

/-- Whatever the host, a layer whose entering fails does not open. -/
theorem opening_of_entering {l : Layer H} {c d : Context H} {exit : Exit Signal}
    (h : l.entering c = .error exit d) (eval : Evaluator H) :
    l.opening eval c = .error exit d := by
  have hfirst : ∀ {γ : Type} {run : Run Signal H γ},
      (do let _ ← run; return () : Run Signal H Unit) c = .error exit d ->
        run c = .error exit d := by
    intro γ run hr
    rw [bind_apply] at hr
    cases hrun : run c with
    | ok a e => rw [hrun] at hr; cases hr
    | error other e => rw [hrun] at hr; cases hr; rfl
  cases l with
  | yield value receiver cls strict =>
      refine bind_of_error ?_
      simp only [entering, bind_of_ok (get_apply c)] at h
      simp only [beginYield, bind_of_ok (get_apply c)]
      split at h
      · rename_i hrefused
        rw [if_pos hrefused]
        cases h
        rfl
      · rename_i hrefused
        rw [if_neg hrefused]
        exact bind_of_error (hfirst h)
  | iterate callback data => exact hfirst h
  | withBlock block => exact hfirst h
  | invoke receiver method => exact hfirst h
  | openModule module => exact hfirst h
  | catchTag tag => exact hfirst h

/-- A layer whose entering fails ends there: the context is as it was, and no code has run. -/
theorem around_of_entering {l : Layer H} {c d : Context H} {exit : Exit Signal}
    (h : l.entering c = .error exit d) :
    d = c ∧ ∀ eval code, l.around eval code c = .error exit c := by
  have hsame := l.entering_atomic c exit d h
  subst hsame
  refine ⟨rfl, fun eval code => ?_⟩
  rw [around_eq]
  exact bind_of_error (opening_of_entering h eval)

end Layer

/-! ## What is refused -/

section Refused

variable {c : Context H}

/-- There is no block to yield to without a frame, in one called without a block, or when the
stack of blocks is empty. -/
theorem yieldTarget?_of_missing
    (h : c.frames.top? = none ∨
      (∃ frame, c.frames.top? = some frame ∧ (c.frameCells.read frame).mark = .absent) ∨
      c.blocks.top? = none) : c.yieldTarget? = none := by
  unfold Context.yieldTarget? Context.isBlockGiven
  rcases h with hframe | ⟨frame, hframe, hmark⟩ | hblock
  · simp [hframe]
  · simp [hframe, hmark]
  · simp [hblock]

theorem checkDepth_refused {limit : Nat} (hlimit : c.config.maxCallDepth = some limit)
    (hdepth : limit ≤ c.frames.depth) :
    checkDepth c = .error (.raised (c.attach { cause := .depthExceeded limit })) c := by
  simp only [checkDepth, bind_apply, get_apply, hlimit, if_pos hdepth]
  rfl

/-- At the limit, none of the three operations that check the depth opens a frame. -/
theorem frames_refused {limit : Nat} (hlimit : c.config.maxCallDepth = some limit)
    (hdepth : limit ≤ c.frames.depth) :
    let failure := c.attach { cause := .depthExceeded limit }
    (∀ receiver method, pushFrame receiver method c = .error (.raised failure) c) ∧
      (∀ receiver method code,
        invoke receiver method code c = .error (.raised (.failure failure)) c) ∧
      ∀ module code, openModule module code c = .error (.raised (.failure failure)) c := by
  have hcheck := checkDepth_refused hlimit hdepth
  have hsignal := signalling_checkDepth_of_error hcheck
  refine ⟨fun receiver method => bind_of_error hcheck, ?_, ?_⟩
  · intro receiver method code
    exact bind_of_error hsignal
  · intro module code
    exact bind_of_error hsignal

theorem setSafeLevel_refused {level : Nat} (h : level < c.safeLevel) :
    setSafeLevel level c =
      .error (.raised (c.attach { cause := .safeLevelLowered c.safeLevel level })) c := by
  simp only [setSafeLevel, bind_apply, get_apply, if_pos h]
  rfl

theorem aliasGlobal_refused (h : maxSafeLevel ≤ c.safeLevel) (old new : String) :
    aliasGlobal old new c = .error (.raised (c.attach { cause := .insecureAlias })) c := by
  simp only [aliasGlobal, bind_apply, get_apply, if_pos h]
  rfl

theorem secure_refused {level : Nat} (h : level ≤ c.safeLevel) :
    ∃ operation, secure level c = .error
      (.raised (c.attach { cause := .insecureOperation operation c.safeLevel })) c := by
  refine ⟨(c.frames.top?.bind fun frame => (c.frameCells.read frame).method).getD "", ?_⟩
  simp only [secure, bind_apply, get_apply, if_pos h]
  rfl

/-- A write through a name that leads to the safe level is a write of the safe level. -/
theorem globalSet_safeLevel {name original : String}
    (h : c.globals.LeadsTo name (.special original .safeLevel)) (value : Value) :
    globalSet name value c = (do
      writeSpecial .safeLevel value
      return value : Run Failure H Value) c :=
  globalSet_special (h.set_eq value)

theorem writeSafeLevel_lowered {requested : Int64} (h : requested.toInt < c.safeLevel) :
    writeSpecial .safeLevel (.int requested) c =
      .error (.raised (c.attach { cause := .safeLevelLowered c.safeLevel requested.toInt })) c := by
  simp only [writeSpecial, bind_apply, get_apply, if_pos h]
  rfl

theorem writeSafeLevel_type {value : Value} (h : ∀ requested, value ≠ .int requested) :
    writeSpecial .safeLevel value c =
      .error (.raised (c.attach { cause := .safeLevelType value.typeName })) c := by
  cases value with
  | int requested => exact absurd rfl (h requested)
  | _ => rfl

theorem globalSet_readOnly {name original : String} {fixed : Value}
    (h : c.globals.LeadsTo name (.readOnly original fixed)) (value : Value) :
    globalSet name value c = .error (.raised (c.attach { cause := .readOnly original })) c :=
  globalSet_refused (h.set_eq value)

theorem defineClassUnder_refused {superclass : String}
    (h : c.module? superclass = none ∨
      ∃ module, c.module? superclass = some module ∧ c.heap.isClass module = false)
    (name : String) :
    defineClassUnder name superclass c =
      .error (.raised (c.attach { cause := .unknownSuperclass superclass })) c := by
  have hclass : c.class? superclass = none := by
    unfold Context.module? at h
    unfold Context.class? Registry.class?
    rcases h with hnone | ⟨module, hmodule, hplain⟩
    · simp [hnone]
    · simp [hmodule, hplain]
  simp only [defineClassUnder, bind_apply, get_apply, hclass]
  rfl

theorem compile_refused {parse : Parser α} {scope : Ref .scope} {failure : Failure}
    (hscope : c.scopes.top? = some scope)
    (hparse : parse (c.scopeCells.read scope).names = .error failure) :
    compile parse c = .error (.raised (c.attach failure)) c := by
  simp only [compile, bind_apply, currentScope_of_top? hscope, get_apply, hparse]
  rfl

end Refused

/-! ## The main result -/

/-- An operation that is refused, or finds a stack empty on entering, leaves the context as it was.
No code runs then, since the answer is the same for all code. -/
theorem refusals_change_nothing {H : Host} (c : Context H) :
    ((c.frames.top? = none ∨
        (∃ frame, c.frames.top? = some frame ∧ (c.frameCells.read frame).mark = .absent) ∨
        c.blocks.top? = none) ->
      ∀ eval value receiver cls strict, yieldBlock eval value receiver cls strict c =
        .error (.raised (.failure (c.attach { cause := .noBlockGiven }))) c) ∧
    (∀ limit, c.config.maxCallDepth = some limit -> limit ≤ c.frames.depth ->
      let failure := c.attach { cause := .depthExceeded limit }
      (∀ receiver method, pushFrame receiver method c = .error (.raised failure) c) ∧
      (∀ receiver method code,
        invoke receiver method code c = .error (.raised (.failure failure)) c) ∧
      ∀ module code, openModule module code c = .error (.raised (.failure failure)) c) ∧
    (maxSafeLevel ≤ c.safeLevel -> ∀ old new,
      aliasGlobal old new c = .error (.raised (c.attach { cause := .insecureAlias })) c) ∧
    (∀ level, level < c.safeLevel -> setSafeLevel level c =
      .error (.raised (c.attach { cause := .safeLevelLowered c.safeLevel level })) c) ∧
    (∀ name original, c.globals.LeadsTo name (.special original .safeLevel) ->
      (∀ requested : Int64, requested.toInt < c.safeLevel ->
        globalSet name (.int requested) c = .error
          (.raised (c.attach { cause := .safeLevelLowered c.safeLevel requested.toInt })) c) ∧
      ∀ value, (∀ requested, value ≠ .int requested) ->
        globalSet name value c =
          .error (.raised (c.attach { cause := .safeLevelType value.typeName })) c) ∧
    (∀ name original fixed, c.globals.LeadsTo name (.readOnly original fixed) -> ∀ value,
      globalSet name value c = .error (.raised (c.attach { cause := .readOnly original })) c) ∧
    (∀ superclass, (c.module? superclass = none ∨
        ∃ module, c.module? superclass = some module ∧ c.heap.isClass module = false) ->
      ∀ name, defineClassUnder name superclass c =
        .error (.raised (c.attach { cause := .unknownSuperclass superclass })) c) ∧
    (∀ level, level ≤ c.safeLevel -> ∃ operation, secure level c = .error
      (.raised (c.attach { cause := .insecureOperation operation c.safeLevel })) c) ∧
    (∀ (α : Type) (parse : Parser α) scope failure, c.scopes.top? = some scope ->
      parse (c.scopeCells.read scope).names = .error failure ->
        compile parse c = .error (.raised (c.attach failure)) c) ∧
    -- Whatever else refuses one of the single operations, the context is as it was.
    ((∀ receiver method, (pushFrame receiver method : Run Failure H _).Atomic) ∧
      (∀ old new, (aliasGlobal old new : Run Failure H _).Atomic) ∧
      (∀ level, (setSafeLevel level : Run Failure H _).Atomic) ∧
      (∀ level, (secure level : Run Failure H _).Atomic) ∧
      (∀ name value, (globalSet name value : Run Failure H _).Atomic) ∧
      (∀ name superclass, (defineClassUnder name superclass : Run Failure H _).Atomic) ∧
      ∀ (α : Type) (parse : Parser α), (compile parse : Run Failure H α).Atomic) ∧
    -- A layer whose entering is refused, or finds a stack empty, ends there.
    ∀ (l : Layer H) exit d, l.entering c = .error exit d ->
      d = c ∧ ∀ eval code, l.around eval code c = .error exit c := by
  refine ⟨?_, ?_, ?_, ?_, ?_, ?_, ?_, ?_, ?_, ⟨?_, ?_, ?_, ?_, ?_, ?_, ?_⟩, ?_⟩
  · intro hmissing eval value receiver cls strict
    exact yieldBlock_of_none (yieldTarget?_of_missing hmissing) eval value receiver cls strict
  · intro limit hlimit hdepth
    exact frames_refused hlimit hdepth
  · intro hlevel old new
    exact aliasGlobal_refused hlevel old new
  · intro level hlevel
    exact setSafeLevel_refused hlevel
  · intro name original hleads
    refine ⟨?_, ?_⟩
    · intro requested hlowered
      rw [globalSet_safeLevel hleads]
      exact bind_of_error (writeSafeLevel_lowered hlowered)
    · intro value htype
      rw [globalSet_safeLevel hleads]
      exact bind_of_error (writeSafeLevel_type htype)
  · intro name original fixed hleads value
    exact globalSet_readOnly hleads value
  · intro superclass hsuper name
    exact defineClassUnder_refused hsuper name
  · intro level hlevel
    exact secure_refused hlevel
  · intro α parse scope failure hscope hparse
    exact compile_refused hscope hparse
  · exact pushFrame_atomic
  · exact aliasGlobal_atomic
  · exact setSafeLevel_atomic
  · exact fun level => .of_looks (secure_looks level)
  · exact globalSet_atomic
  · exact defineClassUnder_atomic
  · exact fun α parse => compile_atomic parse
  · intro l exit d hentering
    exact Layer.around_of_entering hentering

/-- A started context at the highest safe level, in which no more frames are allowed. -/
def Context.secured : Context Bare :=
  { Context.bare with
    safeLevel := maxSafeLevel
    config := { Context.bare.config with maxCallDepth := some 1 } }

/-- Each of the operations is refused there, or before the start, when an iteration finds no
frame. -/
theorem refusals_bare :
    let c := Context.secured
    yieldBlock (.raising .next) none none none false c =
      .error (.raised (.failure (c.attach { cause := .noBlockGiven }))) c ∧
    invoke .nil "each" (return .nil) c =
      .error (.raised (.failure (c.attach { cause := .depthExceeded 1 }))) c ∧
    aliasGlobal "$SAFE" "$LEVEL" c = .error (.raised (c.attach { cause := .insecureAlias })) c ∧
    setSafeLevel 3 c = .error (.raised (c.attach { cause := .safeLevelLowered 4 3 })) c ∧
    globalSet "$SAFE" (.int 0) c =
      .error (.raised (c.attach { cause := .safeLevelLowered 4 0 })) c ∧
    globalSet "$SAFE" .nil c =
      .error (.raised (c.attach { cause := .safeLevelType (Value.typeName .nil) })) c ∧
    globalSet "$$" .nil c = .error (.raised (c.attach { cause := .readOnly "$$" })) c ∧
    defineClassUnder "Cat" "Animal" c =
      .error (.raised (c.attach { cause := .unknownSuperclass "Animal" })) c ∧
    (∃ operation, secure 4 c =
      .error (.raised (c.attach { cause := .insecureOperation operation 4 })) c) ∧
    let before : Context Bare := Context.new {} .silent ()
    iterate (.raising .next) (fun _ => return .nil) .nil () .nil before =
      .error (.fault (.underflow "frame")) before := by
  intro c
  obtain ⟨hyield, hdepth, halias, hlower, hsafe, hfixed, hsuper, hsecure, _⟩ :=
    refusals_change_nothing c
  have hmark : ∃ frame, c.frames.top? = some frame ∧ (c.frameCells.read frame).mark = .absent :=
    ⟨⟨0⟩, rfl, rfl⟩
  have hleads : c.globals.LeadsTo "$SAFE" (.special "$SAFE" .safeLevel) := by decide +kernel
  have hreadOnly : c.globals.LeadsTo "$$" (.readOnly "$$" (.int 0)) := by decide +kernel
  have hmissing : c.module? "Animal" = none := by decide +kernel
  refine ⟨hyield (Or.inr (Or.inl hmark)) _ _ _ _ _, ?_⟩
  refine ⟨(hdepth 1 rfl (Nat.le_refl 1)).2.1 _ _ _, halias (Nat.le_refl _) _ _, ?_⟩
  refine ⟨hlower 3 (by decide), (hsafe "$SAFE" "$SAFE" hleads).1 0 (by decide), ?_⟩
  refine ⟨(hsafe "$SAFE" "$SAFE" hleads).2 .nil (fun _ he => by cases he), ?_⟩
  refine ⟨hfixed "$$" "$$" _ hreadOnly .nil, hsuper "Animal" (Or.inl hmissing) "Cat", ?_⟩
  refine ⟨hsecure 4 (Nat.le_refl 4), ?_⟩
  have hentering : (Layer.iterate () .nil : Layer Bare).entering (Context.new {} .silent ()) =
      .error (.fault (.underflow "frame")) (Context.new {} .silent ()) := rfl
  obtain ⟨_, _, _, _, _, _, _, _, _, _, hlayers⟩ :=
    refusals_change_nothing (Context.new {} .silent () : Context Bare)
  exact (hlayers _ _ _ hentering).2 (.raising .next) (return .nil)

end ExecutionContext
