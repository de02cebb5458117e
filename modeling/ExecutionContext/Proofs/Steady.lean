import ExecutionContext.Proofs.Calm
import ExecutionContext.Proofs.Composition

/-! # Runs that install nothing

A steady run leaves every stack, the open class and the namespace as it found them, in
whatever context it is called. The six operations are steady around steady code: each
takes off again what it has put on, also where nothing lies below it that could not be
taken off. So every run that is nested from the six is steady, when all else that it
does is.
-/

namespace ExecutionContext

variable {H : Host} {ε α : Type} {naming : Prop}

/-! ## Steadiness -/

/-- Nothing is installed and nothing taken off. Naming code may give a namespace to a context that
has none, and no code may replace one. -/
structure Context.Steady (naming : Prop) (c d : Context H) : Prop where
  frames : d.frames = c.frames
  scopes : d.scopes = c.scopes
  blocks : d.blocks = c.blocks
  marks : d.marks = c.marks
  classes : d.classes = c.classes
  ns : d.ns = c.ns ∨ naming ∧ c.ns = none

namespace Context.Steady

theorem refl (c : Context H) : c.Steady naming c :=
  ⟨rfl, rfl, rfl, rfl, rfl, Or.inl rfl⟩

theorem trans {c d e : Context H} (h₁ : c.Steady naming d) (h₂ : d.Steady naming e) :
    c.Steady naming e where
  frames := h₂.frames.trans h₁.frames
  scopes := h₂.scopes.trans h₁.scopes
  blocks := h₂.blocks.trans h₁.blocks
  marks := h₂.marks.trans h₁.marks
  classes := h₂.classes.trans h₁.classes
  ns := by
    rcases h₁.ns with hsame | hnone
    · rw [← hsame]
      exact h₂.ns
    · exact Or.inr hnone

theorem sameStacks {c d : Context H} (h : c.Steady naming d) : c.SameStacks d :=
  ⟨h.frames, h.blocks, h.marks, congrArg OpenClass.saved h.classes, Or.inl h.scopes⟩

end Context.Steady

def Contract.steady (naming : Prop) : Contract H where
  Holds _ := True
  Links := Context.Steady naming
  Faults _ := True
  refl := .refl
  trans := .trans

theorem Contract.steady_allows {run : Run ε H α} {c inside : Context H}
    (h : c.Steady naming (run.after inside)) : (Contract.steady naming).Allows c (run inside) := by
  cases hr : run inside with
  | ok a d =>
      rw [Run.after_of_ok hr] at h
      exact ⟨trivial, h⟩
  | error exit d =>
      rw [Run.after_of_error hr] at h
      exact ⟨⟨trivial, h⟩, fun _ _ => trivial⟩

theorem Run.keeps_steady {run : Run ε H α} (h : ∀ c : Context H, c.Steady naming (run.after c)) :
    run.Keeps (.steady naming) :=
  fun c _ => Contract.steady_allows (h c)

/-! ## Steady operations -/

theorem newArray_steady (items : List Value) :
    (newArray items : Run ε H Value).Keeps (.steady naming) :=
  Run.keeps_steady fun c => { Context.Steady.refl c with }

theorem packArgs_steady (args : List Value) :
    (packArgs args : Run ε H Value).Keeps (.steady naming) :=
  Run.keeps_steady fun c => { Context.Steady.refl c with }

/-- The effects that install something, or take something off. Of the others only a name for a frame
may touch the namespace of the context. -/
def Effect.installing : List Effect :=
  [.start, .stacks, .pushBlock, .ns]

theorem Context.Change.steady {effects : List Effect} {c d : Context H} (h : c.Change effects d)
    (hno : ∀ effect ∈ effects, effect ∉ Effect.installing) (hnaming : .naming ∈ effects -> naming) :
    c.Steady naming d := by
  cases h with
  | naming ns hmem _ =>
      refine ⟨rfl, rfl, rfl, rfl, rfl, ?_⟩
      cases hns : c.ns with
      | none => exact Or.inr ⟨hnaming hmem, rfl⟩
      | some present => exact Or.inl rfl
  | start _ hmem | pushFrame _ hmem _ | popFrame hmem _ | popBlock hmem _ | scopes hmem _
  | marks hmem _ | classes _ hmem | pushBlock _ hmem | ns _ hmem =>
      exact absurd (by decide) (hno _ hmem)
  | _ => exact { Context.Steady.refl c with }

theorem Operation.steady {effects : List Effect} {run : Run ε H α} (h : Operation effects run)
    (hno : ∀ effect ∈ effects, effect ∉ Effect.installing) (hnaming : .naming ∈ effects -> naming) :
    run.Keeps (.steady naming) :=
  h.within.keepsAll (fun _ => trivial) fun _ hchange => ⟨trivial, hchange.steady hno hnaming⟩

theorem setDynamic_steady (name : String) (value : Value) :
    (setDynamic name value : Run ε H Unit).Keeps (.steady naming) :=
  (Operation.setDynamic name value).steady nofun nofun

theorem bindDynamic_steady (pattern : Pattern) (value : Value) (strict : Bool) :
    (bindDynamic pattern value strict : Run Failure H Unit).Keeps (.steady naming) := by
  rw [← bindDynamicBy_setDynamic]
  exact bindDynamicBy_keeps (fun name _ => setDynamic_steady name) newArray_steady value strict

/-! ## Opening and closing in any context -/

/-- What the beginning of a yield leads to, when parameters are bound steadily: the body's context,
with the captured parts installed, or a refusal that installs nothing. -/
theorem beginYield_steady {eval : Evaluator H}
    (hb : ∀ pattern receiver value strict,
      (eval.bind pattern receiver value strict).Keeps (.steady naming))
    (value receiver : Option Value) (cls : Option (Ref .module)) (strict : Bool) (c : Context H) :
    (∃ exit d, beginYield eval value receiver cls strict c = .error exit d ∧
      c.Steady naming d) ∨
    ∃ a inside, beginYield eval value receiver cls strict c = .ok a inside ∧
      c.Activates a.block ∧ a.suspended = c.suspend ∧
      { c.entering a.block cls with marks := c.marks.push a.block.mark }.Steady naming inside := by
  rcases beginYield_cases eval value receiver cls strict c with ⟨exit, h⟩ | ⟨block, h⟩
  · exact Or.inl ⟨exit, c, h, .refl c⟩
  · have hheap : ∀ heap, True ∧ (c.entering block cls).Steady naming
        { c.entering block cls with heap := heap } :=
      fun heap => ⟨trivial, rfl, rfl, rfl, rfl, rfl, Or.inl rfl⟩
    have hbound := Contract.Allows.prepareArgs (K := .steady naming) hheap block
      (block.receiverFor receiver cls) value strict
      fun heap pattern value _ => hb pattern _ value strict _ trivial
    have hbegin := beginYield_eq h eval value receiver cls strict
    cases hp : prepareArgs eval block (block.receiverFor receiver cls) value strict
        (c.entering block cls) with
    | ok args bound =>
        rw [hp] at hbound
        simp only [Run.unwinding, hp] at hbegin
        refine Or.inr ⟨_, _, hbegin, h, rfl, ?_⟩
        exact { hbound.2 with
          marks := congrArg (fun marks => marks.push block.mark) hbound.2.marks }
    | error exit bound =>
        -- The mark is not pushed yet, so leaving the block is all there is to undo.
        rw [hp] at hbound
        simp only [Run.unwinding, hp, leaveBlock_eq h hbound.1.2.sameStacks] at hbegin
        exact Or.inl ⟨exit, _, hbegin, { Context.Steady.refl c with }⟩

namespace Layer

/-- A layer opens in any context, and then its closing undoes the opening around steady code; or
it is refused and installs nothing. -/
theorem opening_steady {eval : Evaluator H}
    (hb : ∀ pattern receiver value strict,
      (eval.bind pattern receiver value strict).Keeps (.steady naming))
    (l : Layer H) (c : Context H) :
    (∃ exit d, l.opening eval c = .error exit d ∧ c.Steady naming d) ∨
    ∃ close inside, l.opening eval c = .ok close inside ∧ ∀ d, inside.Steady naming d ->
      close d = .ok () (l.giveBack c d) ∧ c.Steady naming (l.giveBack c d) := by
  cases l with
  | yield value receiver cls strict =>
      rcases beginYield_steady hb value receiver cls strict c with
        ⟨exit, d, h, hd⟩ | ⟨a, inside, h, hact, hs, hinside⟩
      · exact Or.inl ⟨exit, d, Run.bind_of_error h, hd⟩
      · refine Or.inr ⟨a.finish, inside, Run.bind_of_ok h, fun d hd => ⟨?_, ?_⟩⟩
        · exact Activation.finish_eq hact hs cls (hinside.trans hd).sameStacks
        · exact { Context.Steady.refl c with }
  | iterate callback data =>
      rcases newBlockWithSelf_cases (ε := Signal) .undeclared (.callback callback data) c.topSelf c
        with ⟨_, h⟩ | ⟨_, fault, h⟩
      · refine Or.inr ⟨detachBlock, c.capturing.attaching
          (c.capture .undeclared (.callback callback data) c.topSelf), ?_, fun d hd => ⟨?_, ?_⟩⟩
        · simp [opening, h, pushMark, pushBlock, Context.attaching]
        · exact detachBlock_eq hd.blocks hd.marks
        · exact { hd with blocks := rfl, marks := rfl }
      · refine Or.inl ⟨.fault fault, c, ?_, .refl c⟩
        simp [opening, h]
  | withBlock block =>
      refine Or.inr ⟨detachBlock, c.attaching block, rfl, fun d hd => ⟨?_, ?_⟩⟩
      · exact detachBlock_eq hd.blocks hd.marks
      · exact { hd with blocks := rfl, marks := rfl }
  | invoke receiver method =>
      rcases checkDepth_cases c with hdepth | ⟨failure, hdepth⟩
      · rcases Run.Looks.currentMark (ε := Signal) c with ⟨mark, hm⟩ | ⟨exit, hm⟩
        · refine Or.inr ⟨leaveFrame, c.invoking receiver method mark, ?_, fun d hd => ⟨?_, ?_⟩⟩
          · simp [opening, Run.signalling, hdepth, hm, pushMark, openFrame, Context.invoking,
              Context.methodFrame]
          · exact leaveFrame_eq hd.sameStacks
          · exact { hd with frames := rfl, marks := rfl }
        · refine Or.inl ⟨exit, c, ?_, .refl c⟩
          simp [opening, Run.signalling, hdepth, hm]
      · have hrefused := signalling_checkDepth_of_error hdepth
        exact Or.inl ⟨_, c, Run.bind_of_error hrefused, .refl c⟩
  | openModule module =>
      rcases checkDepth_cases c with hdepth | ⟨failure, hdepth⟩
      · rcases Run.Looks.currentMark (ε := Signal) c with ⟨mark, hm⟩ | ⟨exit, hm⟩
        · refine Or.inr ⟨leaveModule c.ns, c.openingModule module mark, ?_, fun d hd => ⟨?_, ?_⟩⟩
          · simp [opening, Run.signalling, hdepth, hm, openFrame, pushScope, pushClass,
              setNamespace, Context.openingModule, Context.moduleFrame]
          · exact leaveModule_eq hd.sameStacks
          · exact { hd with frames := rfl, scopes := rfl, classes := rfl, ns := Or.inl rfl }
        · refine Or.inl ⟨exit, c, ?_, .refl c⟩
          simp [opening, Run.signalling, hdepth, hm]
      · have hrefused := signalling_checkDepth_of_error hdepth
        exact Or.inl ⟨_, c, Run.bind_of_error hrefused, .refl c⟩
  | catchTag tag => exact Or.inr ⟨_, c, rfl, fun d hd => ⟨rfl, hd⟩⟩

theorem around_steady {eval : Evaluator H} (he : eval.Keeps (.steady naming))
    {code : Run Signal H Value} (hcode : code.Keeps (.steady naming)) (l : Layer H) :
    (l.around eval code).Keeps (.steady naming) := by
  intro c _
  rw [around_eq]
  rcases opening_steady he.bind l c with ⟨exit, d, ho, hd⟩ | ⟨close, inside, ho, hclose⟩
  · rw [Run.bind_of_error ho]
    exact ⟨⟨trivial, hd⟩, fun _ _ => trivial⟩
  · rw [Run.bind_of_ok ho]
    have hkeeps := rounds_keeps (l.codeAt_keeps he packArgs_steady hcode c) eval.limit l
    obtain ⟨hback, hsteady⟩ := hclose _ (hkeeps inside trivial).after.2
    rw [Run.ensuring_of_restore (l.giveBack c) hback]
    refine Contract.steady_allows ?_
    rw [Run.after_leaving]
    exact hsteady

end Layer

/-! ## Nested runs -/

/-- A run that is nested from the six operations, in sequence and with rescues, where all the rest
is steady. The code of blocks and the binding of parameters are nested as well. -/
inductive Run.Nested (naming : Prop) : {ε α : Type} -> Run ε H α -> Prop where
  | steady {ε α : Type} {run : Run ε H α} : run.Keeps (.steady naming) -> run.Nested naming
  | andThen {ε α γ : Type} {run : Run ε H α} {next : α -> Run ε H γ} :
      run.Nested naming -> (∀ a, (next a).Nested naming) -> (run >>= next).Nested naming
  | rescue {ε α : Type} {run : Run ε H α} {handler : Exit ε -> Run ε H α} :
      run.Nested naming -> (∀ exit, (handler exit).Nested naming) ->
      (run.recover handler).Nested naming
  | translating {ε ε' α : Type} {run : Run ε H α} (convert : Context H -> ε -> ε') :
      run.Nested naming -> (run.translating convert).Nested naming
  | around {eval : Evaluator H} {code : Run Signal H Value} (l : Layer H) :
      (∀ body receiver args, (eval.runBody body receiver args).Nested naming) ->
      (∀ body args data, (eval.runCallback body args data).Nested naming) ->
      (∀ pattern receiver value strict,
        (eval.bind pattern receiver value strict).Nested naming) ->
      code.Nested naming -> (l.around eval code).Nested naming

theorem Run.Nested.keeps {run : Run ε H α} (h : run.Nested naming) :
    run.Keeps (.steady naming) := by
  induction h with
  | steady h => exact h
  | andThen _ _ ihrun ihnext => exact ihrun.bind ihnext
  | rescue _ _ ihrun ihhandler => exact ihrun.recover ihhandler
  | translating convert _ ih => exact ih.translating convert
  | around l _ _ _ _ ihbody ihcallback ihbind ihcode =>
      exact l.around_steady ⟨ihbody, ihcallback, ihbind⟩ ihcode

end ExecutionContext
