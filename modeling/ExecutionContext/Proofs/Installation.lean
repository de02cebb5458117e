import ExecutionContext.Proofs.Layer

/-! # What the openings install, and what the closings give back

Every opening that succeeds leads to a context written out here, and a closing that
finds the stacks as the opening left them gives back what the layer replaced. A
refused opening leaves the stacks of the caller alone.
-/

namespace ExecutionContext

variable {H : Host} {ε : Type}

/-! ## Single steps on the stacks -/

theorem popFrame_of_push {c : Context H} {frames : Stack (Ref .frame)} {frame : Ref .frame}
    (h : c.frames = frames.push frame) :
    (popFrame : Run ε H _) c = .ok frame { c with frames := frames } := by
  simp [popFrame, h]

theorem popMark_of_push {c : Context H} {marks : Stack Attachment} {mark : Attachment}
    (h : c.marks = marks.push mark) :
    (popMark : Run ε H _) c = .ok mark { c with marks := marks } := by
  simp [popMark, h]

theorem popBlock_of_push {c : Context H} {blocks : Stack (Block H.Body)} {block : Block H.Body}
    (h : c.blocks = blocks.push block) :
    (popBlock : Run ε H _) c = .ok block { c with blocks := blocks } := by
  simp [popBlock, h]

theorem popClass_of_push {c : Context H} {saved : Stack (Option (Ref .module))}
    {outer : Option (Ref .module)} (h : c.classes.saved = saved.push outer) :
    (popClass : Run ε H _) c =
      .ok c.classes.current { c with classes := { current := outer, saved := saved } } := by
  simp [popClass, OpenClass.pop, h]

theorem currentScope_of_top? {c : Context H} {scope : Ref .scope}
    (h : c.scopes.top? = some scope) : (currentScope : Run ε H _) c = .ok scope c := by
  simp [currentScope, Stack.current_of_top? h]

theorem currentMark_of_top? {c : Context H} {mark : Attachment}
    (h : c.marks.top? = some mark) : (currentMark : Run ε H _) c = .ok mark c := by
  simp [currentMark, Stack.current_of_top? h]

theorem currentFrame_of_top? {c : Context H} {frame : Ref .frame}
    (h : c.frames.top? = some frame) : (currentFrame : Run ε H _) c = .ok frame c := by
  simp [currentFrame, Stack.current_of_top? h]

/-! An empty stack has no top entry, and asking for it is a fault. -/

theorem currentScope_of_none {c : Context H} (h : c.scopes.top? = none) :
    (currentScope : Run ε H _) c = .error (.fault (.underflow c.scopes.name)) c := by
  simp [currentScope, Stack.current, h, Run.ofFault]

theorem currentMark_of_none {c : Context H} (h : c.marks.top? = none) :
    (currentMark : Run ε H _) c = .error (.fault (.underflow c.marks.name)) c := by
  simp [currentMark, Stack.current, h, Run.ofFault]

theorem currentFrame_of_none {c : Context H} (h : c.frames.top? = none) :
    (currentFrame : Run ε H _) c = .error (.fault (.underflow c.frames.name)) c := by
  simp [currentFrame, Stack.current, h, Run.ofFault]

theorem checkDepth_cases (c : Context H) :
    checkDepth c = .ok () c ∨ ∃ failure, checkDepth c = .error (.raised failure) c := by
  simp only [checkDepth, Run.bind_apply, Run.get_apply]
  cases c.config.maxCallDepth with
  | none => exact Or.inl rfl
  | some limit =>
      dsimp only
      split
      · exact Or.inr ⟨_, rfl⟩
      · exact Or.inl rfl

theorem signalling_checkDepth_of_error {c : Context H} {failure : Failure}
    (h : checkDepth c = .error (.raised failure) c) :
    (Run.signalling checkDepth : Run Signal H Unit) c = .error (.raised (.failure failure)) c := by
  rw [Run.signalling, h]

/-! ## Contexts inside the layers -/

namespace Context

/-- The block that a yield activates. -/
def yieldTarget? (c : Context H) : Option (Block H.Body) :=
  if c.isBlockGiven then c.blocks.top? else none

/-- The captured context of a block, installed over the present one. -/
def entering (c : Context H) (block : Block H.Body) (cls : Option (Ref .module)) : Context H :=
  { c with
    frames := c.frames.push block.frame
    blocks := { c.blocks with live := c.blocks.live.tail }
    scopes := c.scopes.withTop block.scope
    classes := c.classes.push (cls.or block.cls)
    ns := (c.frameCells.read block.frame).ns.or block.ns
    chain := (block.chain.activate c.bindings).1
    bindings := (block.chain.activate c.bindings).2 }

def attaching (c : Context H) (block : Block H.Body) : Context H :=
  { c with
    marks := c.marks.push .pending
    blocks := c.blocks.push block }

def methodFrame (c : Context H) (receiver : Value) (method : String) (mark : Attachment) : Frame :=
  { self := receiver, ns := c.ns, method := some method, mark := mark.forCallee }

/-- A method's frame, pushed under the mark that the call finds. -/
def invoking (c : Context H) (receiver : Value) (method : String) (mark : Attachment) :
    Context H :=
  { c with
    marks := c.marks.push mark.forCallee
    frames := c.frames.push (c.frameCells.alloc (c.methodFrame receiver method mark)).1
    frameCells := (c.frameCells.alloc (c.methodFrame receiver method mark)).2 }

def moduleFrame (c : Context H) (module : Ref .module) (mark : Attachment) : Frame :=
  { self := .module module, ns := some (c.innerNamespace module).1, mark := mark }

/-- A module opened: its frame, a scope of its own, the module as the open class, and a namespace
inside the present one. -/
def openingModule (c : Context H) (module : Ref .module) (mark : Attachment) : Context H :=
  { c with
    levels := (c.innerNamespace module).2
    frames := c.frames.push (c.frameCells.alloc (c.moduleFrame module mark)).1
    frameCells := (c.frameCells.alloc (c.moduleFrame module mark)).2
    scopes := c.scopes.push (c.scopeCells.alloc (Scope.withLocals [])).1
    scopeCells := (c.scopeCells.alloc (Scope.withLocals [])).2
    classes := c.classes.push (some module)
    ns := some (c.innerNamespace module).1 }

theorem Based.live_eq_of_target {c : Context H} (hc : c.Based) {block : Block H.Body}
    (h : c.yieldTarget? = some block) : c.blocks.live = block :: c.blocks.live.tail := by
  unfold yieldTarget? at h
  split at h
  · rw [hc.top?_blocks] at h
    cases hl : c.blocks.live with
    | nil => rw [hl] at h; cases h
    | cons first rest => rw [hl] at h; cases h; rfl
  · cases h

/-- A yield takes the block off its stack and replaces the scope on top. -/
structure Activates (c : Context H) (block : Block H.Body) : Prop where
  given : c.isBlockGiven = true
  live : c.blocks.live = block :: c.blocks.live.tail
  scope : ∃ scope, c.scopes.top? = some scope

theorem Based.activates {c : Context H} (hc : c.Based) {block : Block H.Body}
    (h : c.yieldTarget? = some block) : c.Activates block where
  given := by
    unfold yieldTarget? at h
    split at h
    · assumption
    · cases h
  live := hc.live_eq_of_target h
  scope := hc.exists_scope

theorem Based.entering {c : Context H} (hc : c.Based) (block : Block H.Body)
    (cls : Option (Ref .module)) : (c.entering block cls).Based where
  frames := hc.frames
  scopes := Stack.base_withTop_ne_nil hc.scopes _
  marks := hc.marks
  blocks := hc.blocks

theorem Based.attaching {c : Context H} (hc : c.Based) (block : Block H.Body) :
    (c.attaching block).Based :=
  ⟨hc.frames, hc.scopes, hc.marks, hc.blocks⟩

theorem Based.invoking {c : Context H} (hc : c.Based) (receiver : Value) (method : String)
    (mark : Attachment) : (c.invoking receiver method mark).Based :=
  ⟨hc.frames, hc.scopes, hc.marks, hc.blocks⟩

theorem Based.openingModule {c : Context H} (hc : c.Based) (module : Ref .module)
    (mark : Attachment) : (c.openingModule module mark).Based :=
  ⟨hc.frames, hc.scopes, hc.marks, hc.blocks⟩

end Context

/-! ## Entering and leaving a block -/

/-- What an activation in the context suspends. -/
def Context.suspend (c : Context H) : Suspended :=
  { ns := c.ns, scope := c.scopes.top?.getD default, chain := c.chain }

theorem enterBlock_eq {c : Context H} {block : Block H.Body} (h : c.Activates block)
    (cls : Option (Ref .module)) :
    (enterBlock cls : Run ε H _) c = .ok (block, c.suspend) (c.entering block cls) := by
  obtain ⟨scope, hs⟩ := h.scope
  have hp : c.blocks.pop = .ok (block, { c.blocks with live := c.blocks.live.tail }) := by
    unfold Stack.pop
    rw [h.live]
    rfl
  simp [enterBlock, popBlock, enterFrame, setTopScope, pushClass, currentScope_of_top? hs, hp,
    Stack.setTop_of_top? hs, Context.entering, Context.suspend, hs]

/-- Entering a block needs a scope to replace and a block that can be taken off. -/
theorem enterBlock_cases (cls : Option (Ref .module)) (c : Context H) :
    (∃ fault, (enterBlock cls : Run ε H _) c = .error (.fault fault) c) ∨
      (∃ scope, c.scopes.top? = some scope) ∧ ∃ block, c.blocks.live = block :: c.blocks.live.tail := by
  unfold enterBlock
  cases hs : c.scopes.top? with
  | none =>
      rw [Run.bind_of_error (currentScope_of_none hs)]
      exact Or.inl ⟨_, rfl⟩
  | some scope =>
      cases hl : c.blocks.live with
      | nil =>
          have hpop : (popBlock : Run ε H _) c = .error (.fault (.underflow c.blocks.name)) c := by
            simp [popBlock, Stack.pop, hl, Run.ofFault]
          rw [Run.bind_of_ok (currentScope_of_top? hs), Run.bind_of_ok (Run.get_apply c),
            Run.bind_of_error hpop]
          exact Or.inl ⟨_, rfl⟩
      | cons block rest => exact Or.inr ⟨⟨scope, rfl⟩, block, rfl⟩

/-- What leaving a block gives back: everything that entering it replaced. -/
def Context.resuming (c d : Context H) : Context H :=
  { d with
    frames := c.frames
    blocks := c.blocks
    scopes := c.scopes
    marks := c.marks
    classes := c.classes
    ns := c.ns
    chain := c.chain }

theorem leaveBlock_eq {c d : Context H} {block : Block H.Body} (h : c.Activates block)
    {cls : Option (Ref .module)} (hd : (c.entering block cls).SameStacks d) :
    (leaveBlock block c.suspend : Run ε H Unit) d = .ok () (c.resuming d) := by
  obtain ⟨scope, hs⟩ := h.scope
  obtain ⟨hframes, hblocks, hmarks, hsaved, hscopes⟩ := hd
  have hpush : d.blocks.push block = c.blocks := by
    rw [hblocks]
    exact Stack.push_tail h.live
  obtain ⟨top, htop⟩ := hscopes.exists_top? (Stack.top?_withTop hs block.scope)
  have hback : d.scopes.withTop scope = c.scopes := by
    rw [hscopes.withTop_eq scope]
    simp [Context.entering, Stack.withTop_of_top? hs]
  simp [leaveBlock, popClass_of_push hsaved, pushBlock, popFrame, setTopScope, hframes,
    Context.entering, Stack.setTop_of_top? htop, hback, hpush, Context.resuming, Context.suspend,
    hs]
  exact hmarks

/-- The mark goes off first, and the rest is leaving the block. -/
theorem Activation.finish_eq {c d : Context H} {a : Activation H} (h : c.Activates a.block)
    (hs : a.suspended = c.suspend) (cls : Option (Ref .module))
    (hd : { c.entering a.block cls with marks := c.marks.push a.block.mark }.SameStacks d) :
    a.finish d = .ok () (c.resuming d) := by
  have hm : d.marks = c.marks.push a.block.mark := hd.marks
  have hsame : (c.entering a.block cls).SameStacks { d with marks := c.marks } :=
    ⟨hd.frames, hd.blocks, rfl, hd.saved, hd.scopes⟩
  unfold finish
  rw [Run.bind_of_ok (popMark_of_push hm), hs, leaveBlock_eq h hsame]
  rfl

/-! ## Beginning a yield -/

theorem beginYield_of_none {c : Context H} (h : c.yieldTarget? = none) (eval : Evaluator H)
    (value receiver : Option Value) (cls : Option (Ref .module)) (strict : Bool) :
    beginYield eval value receiver cls strict c =
      .error (.raised (.failure (c.attach { cause := .noBlockGiven }))) c := by
  have hcond : (!c.isBlockGiven || c.blocks.top?.isNone) = true := by
    unfold Context.yieldTarget? at h
    split at h
    · simp [h]
    · simp_all
  simp only [beginYield, Run.bind_apply, Run.get_apply, hcond, if_true]
  rfl

theorem yieldBlock_of_none {c : Context H} (h : c.yieldTarget? = none) (eval : Evaluator H)
    (value receiver : Option Value) (cls : Option (Ref .module)) (strict : Bool) :
    yieldBlock eval value receiver cls strict c =
      .error (.raised (.failure (c.attach { cause := .noBlockGiven }))) c := by
  rw [yieldBlock_eq_begin]
  exact Run.bind_of_error (beginYield_of_none h eval value receiver cls strict)

/-- With a block to activate, everything up to the first pass hangs on the arguments. -/
theorem beginYield_eq {c : Context H} {block : Block H.Body} (h : c.Activates block)
    (eval : Evaluator H) (value receiver : Option Value) (cls : Option (Ref .module))
    (strict : Bool) :
    beginYield eval value receiver cls strict c =
      match (prepareArgs eval block (block.receiverFor receiver cls) value strict).unwinding
          (leaveBlock block c.suspend) (c.entering block cls) with
      | .ok args d =>
          .ok { block := block, suspended := c.suspend, self := block.receiverFor receiver cls,
                args := args } { d with marks := d.marks.push block.mark }
      | .error exit d => .error exit d := by
  have hcond : (!c.isBlockGiven || c.blocks.top?.isNone) = false := by
    rw [h.given, Stack.top?, h.live]
    rfl
  unfold beginYield
  rw [Run.bind_of_ok (Run.get_apply c), hcond, if_neg Bool.false_ne_true,
    Run.bind_of_ok (enterBlock_eq h cls)]
  simp only [Run.bind_apply]
  cases (prepareArgs eval block (block.receiverFor receiver cls) value strict).unwinding
    (leaveBlock block c.suspend) (c.entering block cls) <;> rfl

/-- A block that a yield finds is activated, or the stack discipline is broken. -/
theorem beginYield_of_target {c : Context H} {block : Block H.Body}
    (h : c.yieldTarget? = some block) (eval : Evaluator H) (value receiver : Option Value)
    (cls : Option (Ref .module)) (strict : Bool) :
    (∃ fault, beginYield eval value receiver cls strict c = .error (.fault fault) c) ∨
      c.Activates block := by
  obtain ⟨hg, htop⟩ : c.isBlockGiven = true ∧ c.blocks.top? = some block := by
    unfold Context.yieldTarget? at h
    split at h
    · next hg => exact ⟨hg, h⟩
    · cases h
  have hcond : (!c.isBlockGiven || c.blocks.top?.isNone) = false := by simp [hg, htop]
  rcases enterBlock_cases cls c with ⟨fault, he⟩ | ⟨hscope, top, hlive⟩
  · unfold beginYield
    rw [Run.bind_of_ok (Run.get_apply c), hcond, if_neg Bool.false_ne_true, Run.bind_of_error he]
    exact Or.inl ⟨fault, rfl⟩
  · rw [Stack.top?, hlive] at htop
    cases htop
    exact Or.inr ⟨hg, hlive, hscope⟩

/-- Without a block to take off, or a scope to replace, a yield ends where it stands. -/
theorem beginYield_cases (eval : Evaluator H) (value receiver : Option Value)
    (cls : Option (Ref .module)) (strict : Bool) (c : Context H) :
    (∃ exit, beginYield eval value receiver cls strict c = .error exit c) ∨
      ∃ block, c.Activates block := by
  cases ht : c.yieldTarget? with
  | none => exact Or.inl ⟨_, beginYield_of_none ht eval value receiver cls strict⟩
  | some block =>
      rcases beginYield_of_target ht eval value receiver cls strict with ⟨fault, h⟩ | hactive
      · exact Or.inl ⟨_, h⟩
      · exact Or.inr ⟨block, hactive⟩

/-- What is left of a yield once its block is entered: bind the arguments, run the body, and leave
the block again. -/
def runEntered (eval : Evaluator H) (block : Block H.Body) (suspended : Suspended) (self : Value)
    (value : Option Value) (strict : Bool) : Run Signal H Value := do
  let args ← (prepareArgs eval block self value strict).unwinding (leaveBlock block suspended)
  pushMark block.mark
  (passes (runCode eval block.code self args) eval.limit).ensuring do
    let _ ← popMark
    leaveBlock block suspended

theorem yieldBlock_of_activates {c : Context H} {block : Block H.Body} (h : c.Activates block)
    (eval : Evaluator H) (value receiver : Option Value) (cls : Option (Ref .module))
    (strict : Bool) :
    yieldBlock eval value receiver cls strict c =
      runEntered eval block c.suspend (block.receiverFor receiver cls) value strict
        (c.entering block cls) := by
  rw [yieldBlock_eq_begin, Run.bind_apply, beginYield_eq h]
  unfold runEntered
  rw [Run.bind_apply]
  cases (prepareArgs eval block (block.receiverFor receiver cls) value strict).unwinding
    (leaveBlock block c.suspend) (c.entering block cls) <;> rfl

theorem yieldBlock_of_target {c : Context H} (hc : c.Based) {block : Block H.Body}
    (ht : c.yieldTarget? = some block) (eval : Evaluator H) (value receiver : Option Value)
    (cls : Option (Ref .module)) (strict : Bool) :
    yieldBlock eval value receiver cls strict c =
      runEntered eval block c.suspend (block.receiverFor receiver cls) value strict
        (c.entering block cls) :=
  yieldBlock_of_activates (hc.activates ht) eval value receiver cls strict

/-! ## Closing the layers -/

namespace Layer

/-- What the closing of a layer opened in `c` makes of the context `d` that its code left. -/
def giveBack (c d : Context H) : Layer H -> Context H
  | .yield .. => c.resuming d
  | .iterate .. => { d with blocks := c.blocks, marks := c.marks }
  | .withBlock _ => { d with blocks := c.blocks, marks := c.marks }
  | .invoke .. => { d with frames := c.frames, marks := c.marks }
  | .openModule _ =>
      { d with ns := c.ns, classes := c.classes, scopes := c.scopes, frames := c.frames }
  | .catchTag _ => d

end Layer

theorem detachBlock_eq {d : Context H} {blocks : Stack (Block H.Body)} {marks : Stack Attachment}
    {block : Block H.Body} {mark : Attachment} (hb : d.blocks = blocks.push block)
    (hm : d.marks = marks.push mark) :
    (detachBlock : Run Signal H Unit) d = .ok () { d with blocks := blocks, marks := marks } := by
  simp [detachBlock, popBlock_of_push hb, popMark, hm]

theorem leaveFrame_eq {c d : Context H} {receiver : Value} {method : String} {mark : Attachment}
    (hd : (c.invoking receiver method mark).SameStacks d) :
    (leaveFrame : Run Signal H Unit) d =
      .ok () { d with frames := c.frames, marks := c.marks } := by
  have hf : d.frames = c.frames.push _ := hd.frames
  have hm : d.marks = c.marks.push mark.forCallee := hd.marks
  simp [leaveFrame, popFrame_of_push hf, popMark, hm]

theorem leaveModule_eq {c d : Context H} {module : Ref .module} {mark : Attachment}
    (hd : (c.openingModule module mark).SameStacks d) :
    (leaveModule c.ns : Run Signal H Unit) d = .ok ()
      { d with ns := c.ns, classes := c.classes, scopes := c.scopes, frames := c.frames } := by
  have hf : d.frames = c.frames.push _ := hd.frames
  have hc : d.classes.saved = c.classes.saved.push c.classes.current := hd.saved
  obtain ⟨top, hs⟩ := Stack.SameBelow.eq_push hd.scopes
  simp [leaveModule, setNamespace, popClass, OpenClass.pop, popScope, popFrame, hf, hc, hs]

end ExecutionContext
