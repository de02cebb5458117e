import ExecutionContext.Proofs.Composition

/-! # What a run finds at the bottom of its stacks

Starting puts the top frame, a mark and a scope below every pop. Single operations
leave the base of a stack alone, except that a scope there may be replaced, and the
six that run code are made of such steps, so that no order of unbalanced pushes and
pops gets below it.
-/

namespace ExecutionContext

variable {H : Host} {ε α : Type}

/-! ## The base of a context -/

/-- The context still stands on the frame and the mark that it was started with, and on a scope. -/
structure Context.StandsOn (c : Context H) (top : Ref .frame) : Prop where
  started : c.started = true
  topFrame : c.topFrame = some top
  frames : c.frames.base = [top]
  marks : c.marks.base = [.absent]
  scopes : c.scopes.base ≠ []
  blocks : c.blocks.base = []

namespace Context.StandsOn

variable {c d : Context H} {top : Ref .frame}

theorem of_sameBase (hc : c.StandsOn top) (h : c.SameBase d) : d.StandsOn top where
  started := h.started
  topFrame := h.topFrame.trans hc.topFrame
  frames := h.frames.trans hc.frames
  marks := h.marks.trans hc.marks
  scopes := h.scopes hc.scopes
  blocks := h.blocks.trans hc.blocks

theorem based (hc : c.StandsOn top) : c.Based where
  frames := by simp [hc.frames]
  scopes := hc.scopes
  marks := by simp [hc.marks]
  blocks := hc.blocks

theorem getLast?_frames (hc : c.StandsOn top) : c.frames.entries.getLast? = some top := by
  simp [Stack.entries, hc.frames]

theorem getLast?_marks (hc : c.StandsOn top) : c.marks.entries.getLast? = some .absent := by
  simp [Stack.entries, hc.marks]

theorem scopes_ne_nil (hc : c.StandsOn top) : c.scopes.entries ≠ [] := by
  intro hempty
  have hparts := List.append_eq_nil_iff.mp hempty
  exact hc.scopes hparts.2

theorem backtrace_eq (hc : c.StandsOn top) :
    ∃ inner, c.backtrace = inner ++ [(c.frameCells.read top).displayName] := by
  have hentries : c.frames.entries = c.frames.live ++ [top] := by
    rw [Stack.entries, hc.frames]
  refine ⟨c.frames.live.map fun frame => (c.frameCells.read frame).displayName, ?_⟩
  rw [Context.backtrace, hentries, List.map_append, List.map_singleton]

end Context.StandsOn

/-- A context started for the first time stands on its top frame. -/
theorem Context.standsOn_start {c : Context H} (hs : c.started = false)
    (hframes : c.frames.entries = []) (hmarks : c.marks.entries = [])
    (hblocks : c.blocks.base = []) (processId : Int64) :
    ∃ top, (c.start processId).StandsOn top := by
  unfold Context.start
  rw [hs, if_neg Bool.false_ne_true]
  exact ⟨_, rfl, rfl, by simp [Stack.sealBase, hframes], by simp [Stack.sealBase, hmarks],
    Stack.base_sealBase_push_ne_nil _ _, hblocks⟩

/-! ## What the base is good for -/

/-- The operations that need an entry on a stack find one, and a failure that is recorded here is
traced down to the outermost frame. -/
structure Context.Serves (c : Context H) (top : Ref .frame) : Prop where
  currentFrame : ∃ frame, (currentFrame : Run Failure H _) c = .ok frame c
  currentScope : ∃ scope, (currentScope : Run Failure H _) c = .ok scope c
  currentMark : ∃ mark, (currentMark : Run Failure H _) c = .ok mark c
  newBlock : ∀ params code, ∃ receiver,
    (newBlock params code : Run Failure H _) c = .ok (c.capture params code receiver) c.capturing
  newBlockWithSelf : ∀ params code receiver, (newBlockWithSelf params code receiver :
    Run Failure H _) c = .ok (c.capture params code receiver) c.capturing
  setTopScope : ∀ scope, ∃ old,
    (setTopScope scope : Run Failure H _) c = .ok old { c with scopes := c.scopes.withTop scope }
  setLastLine : ∀ value, ∃ d, (setLastLine value : Run Failure H _) c = .ok () d
  setLastMatch : ∀ value, ∃ d, (setLastMatch value : Run Failure H _) c = .ok () d
  attach : ∀ failure, failure.backtrace = none -> ∃ inner,
    (c.attach failure).backtrace = some (inner ++ [(c.frameCells.read top).displayName])

theorem setSpecialSlot_answers {c : Context H} {scope : Ref .scope}
    (h : c.scopes.top? = some scope) (slot : Nat) (value : Value) :
    ∃ d, (setSpecialSlot slot value : Run ε H Unit) c = .ok () d := by
  rw [setSpecialSlot, modifyScope, Run.bind_of_ok (currentScope_of_top? h)]
  exact ⟨_, rfl⟩

theorem Context.StandsOn.serves {c : Context H} {top : Ref .frame} (hc : c.StandsOn top) :
    c.Serves top := by
  obtain ⟨frame, hframe⟩ := hc.based.exists_frame
  obtain ⟨scope, hscope⟩ := hc.based.exists_scope
  obtain ⟨mark, hmark⟩ := hc.based.exists_mark
  obtain ⟨inner, htrace⟩ := hc.backtrace_eq
  constructor
  case currentFrame => exact ⟨frame, currentFrame_of_top? hframe⟩
  case currentScope => exact ⟨scope, currentScope_of_top? hscope⟩
  case currentMark => exact ⟨mark, currentMark_of_top? hmark⟩
  case newBlock =>
    intro params code
    exact ⟨_, newBlockWithSelf_eq hc.based.capturable params code _⟩
  case newBlockWithSelf => exact newBlockWithSelf_eq hc.based.capturable
  case setTopScope =>
    intro replacement
    refine ⟨scope, ?_⟩
    simp [setTopScope, Stack.setTop_of_top? hscope]
  case setLastLine => exact setSpecialSlot_answers hscope _
  case setLastMatch => exact setSpecialSlot_answers hscope _
  case attach =>
    intro failure hnone
    refine ⟨inner, ?_⟩
    simp only [Context.attach, Failure.attach, hnone, htrace]

/-! ## Runs -/

variable {β σ : Type}

/-- Whatever is pushed, popped and rescued, the top frame and the first mark stay at the bottom and
a scope remains, so that every operation that needs an entry finds one. -/
theorem base_survives (config : Config) (errors : ErrorStream) (own : σ) (processId : Int64)
    {run : Run ε (Recorded β σ) α} (hrun : Composed run) :
    let initial : Context (Recorded β σ) :=
      (Context.new (H := Recorded β σ) config errors { own := own }).start processId
    ∃ top, initial.topFrame = some top ∧ initial.frames.entries = [top] ∧
      ∀ scene ∈ run.scenes initial,
        scene.topFrame = some top ∧
        scene.frames.entries.getLast? = some top ∧
        scene.marks.entries.getLast? = some .absent ∧
        scene.scopes.entries ≠ [] ∧
        (∃ inner, scene.backtrace = inner ++ [(scene.frameCells.read top).displayName]) ∧
        scene.Serves top := by
  intro initial
  obtain ⟨top, htop⟩ : ∃ top, initial.StandsOn top :=
    Context.standsOn_start rfl rfl rfl rfl processId
  have hplain : initial.plain.StandsOn top :=
    ⟨htop.started, htop.topFrame, htop.frames, htop.marks, htop.scopes, htop.blocks⟩
  have hstands : ∀ scene ∈ run.scenes initial, scene.StandsOn top := by
    have hpoints : initial.host.points = [] := rfl
    refine hrun.forall_scenes ?_ ?_ hpoints hplain
    · intro c d hstep hc
      exact hc.of_sameBase (hstep.base hc.started)
    · intro c own hc
      exact ⟨hc.started, hc.topFrame, hc.frames, hc.marks, hc.scopes, hc.blocks⟩
  refine ⟨top, htop.topFrame, ?_, fun scene hscene => ?_⟩
  · rw [Stack.entries, htop.frames]
    rfl
  · have hs := hstands scene hscene
    exact ⟨hs.topFrame, hs.getLast?_frames, hs.getLast?_marks, hs.scopes_ne_nil,
      hs.backtrace_eq, hs.serves⟩

/-- A call in a call that takes both frames off, so that each of the two closings breaks off and
leaves its mark behind; then a scope that is never taken off, and a pop at the base. -/
def undermining : Run Signal (Recorded Empty Unit) Value := do
  let inner : Run Signal (Recorded Empty Unit) Value := do
    let _ ← popFrame
    let _ ← popFrame
    Journal.notePoint none
    return .nil
  let outer : Run Signal (Recorded Empty Unit) Value := do
    Journal.notePoint none
    ((Layer.invoke .nil "inner").around .idle inner).recover fun _ => return .nil
  let _ ← ((Layer.invoke .nil "outer").around .idle outer).recover fun _ => return .nil
  let _ ← setTopScope ⟨7⟩
  let _ ← pushScope (Scope.withLocals [])
  (do let _ ← popFrame; return Value.nil).recover fun _ => return .nil

theorem undermining_composed : Composed undermining := by
  have around : ∀ {code : Run Signal _ Value} (l : Layer (Recorded Empty Unit)), Composed code ->
      Composed ((l.around .idle code).recover fun _ => return .nil) := by
    intro code l hcode
    refine .rescue (.around l ?_ ?_ ?_ hcode) fun _ => .answer _
    · exact fun _ _ _ => .exhausted
    · exact fun _ _ _ => .exhausted
    · exact fun _ _ _ _ => .exhausted
  refine .andThen (around _ ?_) fun _ => ?_
  · refine .andThen .note fun _ => around _ ?_
    refine .andThen (.operation .popFrame) fun _ => .andThen (.operation .popFrame) fun _ => ?_
    exact .andThen .note fun _ => .answer _
  · refine .andThen (.operation (.setTopScope _)) fun _ => ?_
    refine .andThen (.operation (.pushScope _)) fun _ => ?_
    exact .rescue (.andThen (.operation .popFrame) fun _ => .answer _) fun _ => .answer _

/-- Both calls end with their frames gone and their marks left, above a base that is whole. -/
theorem base_survives_undermining :
    let initial : Context (Recorded Empty Unit) :=
      (Context.new (H := Recorded Empty Unit) {} .silent { own := () }).start 7
    Composed undermining ∧
    (undermining.scenes initial).map (fun c => (c.backtrace, c.marks.depth, c.scopes.depth)) =
      [(["<main>"], 1, 1), (["outer", "<main>"], 2, 1), (["<main>"], 3, 1),
        (["<main>"], 3, 2)] ∧
    ∃ top, initial.topFrame = some top ∧
      ∀ scene ∈ undermining.scenes initial,
        scene.frames.entries.getLast? = some top ∧ scene.Serves top := by
  intro initial
  obtain ⟨top, htop, _, hscenes⟩ := base_survives {} .silent () 7 undermining_composed
  refine ⟨undermining_composed, by decide +kernel, top, htop, fun scene hscene => ?_⟩
  obtain ⟨_, hframes, _, _, _, hserves⟩ := hscenes scene hscene
  exact ⟨hframes, hserves⟩

end ExecutionContext
