import ExecutionContext.Proofs.Installation

/-! # Opening a layer, and the rule for a whole layer

A layer either opens, and its code starts in a context that is written out here, or
it is refused and leaves the stacks alone. The closing of an opened layer gives the
stacks back whenever the code kept them. A layer keeps a contract as soon as its
opening leads inside the contract and its closing leads back out.
-/

namespace ExecutionContext

variable {H : Host} {ε : Type}

/-! ## Opening the layers -/

namespace Context

/-- The block captured in a context; its tops are those that a started context has. -/
def capture (c : Context H) (params : Params) (code : Code H.Body) (receiver : Value) :
    Block H.Body :=
  { id := ⟨c.blockCount⟩
    params := params
    code := code
    self := receiver
    frame := c.frames.top?.getD default
    scope := c.scopes.top?.getD default
    ns := c.ns
    cls := c.classes.current
    chain := c.chain
    mark := c.marks.top?.getD default }

def capturing (c : Context H) : Context H :=
  { c with blockCount := c.blockCount + 1 }

theorem Based.capturing {c : Context H} (hc : c.Based) : c.capturing.Based :=
  ⟨hc.frames, hc.scopes, hc.marks, hc.blocks⟩

end Context

/-- There are a frame, a scope and a mark, which a block can capture. -/
structure Context.Capturable (c : Context H) : Prop where
  frame : ∃ frame, c.frames.top? = some frame
  scope : ∃ scope, c.scopes.top? = some scope
  mark : ∃ mark, c.marks.top? = some mark

theorem Context.Based.capturable {c : Context H} (hc : c.Based) : c.Capturable :=
  ⟨hc.exists_frame, hc.exists_scope, hc.exists_mark⟩

theorem newBlockWithSelf_eq {c : Context H} (hc : c.Capturable) (params : Params)
    (code : Code H.Body) (receiver : Value) : (newBlockWithSelf params code receiver : Run ε H _) c =
      .ok (c.capture params code receiver) c.capturing := by
  obtain ⟨⟨frame, hf⟩, ⟨scope, hs⟩, ⟨mark, hm⟩⟩ := hc
  simp [newBlockWithSelf, currentFrame_of_top? hf, currentScope_of_top? hs,
    currentMark_of_top? hm, Context.capture, Context.capturing, hf, hs, hm]

/-- A block is captured at the tops of the stacks, unless one of them is empty. -/
theorem newBlockWithSelf_cases (params : Params) (code : Code H.Body) (receiver : Value)
    (c : Context H) :
    c.Capturable ∧ (newBlockWithSelf params code receiver : Run ε H _) c =
        .ok (c.capture params code receiver) c.capturing ∨
      ¬ c.Capturable ∧ ∃ fault,
        (newBlockWithSelf params code receiver : Run ε H _) c = .error (.fault fault) c := by
  by_cases hc : c.Capturable
  · exact Or.inl ⟨hc, newBlockWithSelf_eq hc params code receiver⟩
  refine Or.inr ⟨hc, ?_⟩
  unfold newBlockWithSelf
  cases hframe : c.frames.top? with
  | none => exact ⟨_, Run.bind_of_error (currentFrame_of_none hframe)⟩
  | some frame =>
      rw [Run.bind_of_ok (currentFrame_of_top? hframe)]
      cases hscope : c.scopes.top? with
      | none => exact ⟨_, Run.bind_of_error (currentScope_of_none hscope)⟩
      | some scope =>
          rw [Run.bind_of_ok (currentScope_of_top? hscope)]
          cases hmark : c.marks.top? with
          | none => exact ⟨_, Run.bind_of_error (currentMark_of_none hmark)⟩
          | some mark => exact absurd ⟨⟨frame, hframe⟩, ⟨scope, hscope⟩, ⟨mark, hmark⟩⟩ hc

namespace Layer

/-- The context in which the code of a layer starts when the layer is opened in `c`. -/
def Enters (eval : Evaluator H) (c : Context H) : Layer H -> Context H -> Prop
  | .yield value receiver cls strict, inside =>
      ∃ block args bound, c.yieldTarget? = some block ∧
        prepareArgs eval block (block.receiverFor receiver cls) value strict
          (c.entering block cls) = .ok args bound ∧
        inside = { bound with marks := bound.marks.push block.mark }
  | .iterate callback data, inside =>
      inside = c.capturing.attaching
        (c.capture .undeclared (.callback callback data) c.topSelf)
  | .withBlock block, inside => inside = c.attaching block
  | .invoke receiver method, inside =>
      ∃ mark, c.marks.top? = some mark ∧ inside = c.invoking receiver method mark
  | .openModule module, inside =>
      ∃ mark, c.marks.top? = some mark ∧ inside = c.openingModule module mark
  | .catchTag _, inside => inside = c

/-- How a layer can be refused: a yield without a block or one whose arguments cannot be bound, and
a frame beyond the limit on their number. -/
def Refuses (eval : Evaluator H) (c : Context H) : Layer H -> Exit Signal -> Context H -> Prop
  | .yield value receiver cls strict, exit, d =>
      (c.yieldTarget? = none ∧ d = c ∧
        exit = .raised (.failure (c.attach { cause := .noBlockGiven }))) ∨
      ∃ block bound, c.yieldTarget? = some block ∧
        prepareArgs eval block (block.receiverFor receiver cls) value strict
          (c.entering block cls) = .error exit bound ∧ d = c.resuming bound
  | .invoke .., exit, d => d = c ∧ ∃ failure, exit = .raised (.failure failure)
  | .openModule _, exit, d => d = c ∧ ∃ failure, exit = .raised (.failure failure)
  | _, _, _ => False

end Layer

/-! ## Binding the arguments -/

/-- Balance: the stacks are left as they were found, and only the given faults occur. -/
def Contract.balanced (Faults : Fault -> Prop) : Contract H where
  Holds := Context.Based
  Links := Context.SameStacks
  Faults := Faults
  refl := .refl
  trans := .trans

section Binding

variable {K : Contract H} {eval : Evaluator H} {c : Context H}

theorem Contract.Allows.bindParams (hc : K.Holds c) (params : Params) (receiver value : Value)
    (strict : Bool) (hb : ∀ pattern value, params = .pattern pattern ->
      K.Allows c (eval.bind pattern receiver value strict c)) :
    K.Allows c (bindParams eval params receiver value strict c) := by
  unfold ExecutionContext.bindParams
  rw [Run.bind_of_ok (Run.get_apply c)]
  cases params with
  | empty =>
      cases strict with
      | false => exact K.allows_ok hc _
      | true =>
          dsimp only
          cases c.heap.items? value with
          | none => exact K.allows_ok hc _
          | some items =>
              cases items with
              | nil => exact K.allows_ok hc _
              | cons _ _ => exact K.allows_raised hc _
  | undeclared => exact K.allows_ok hc _
  | pattern pattern => exact (hb pattern _ rfl).bind fun _ => Run.Keeps.pure _

theorem Run.Keeps.prepareArgs (hempty : (newArray [] : Run Signal H Value).Keeps K)
    (hb : ∀ pattern receiver value strict, (eval.bind pattern receiver value strict).Keeps K)
    (block : Block H.Body) (receiver : Value) (value : Option Value) (strict : Bool) :
    (prepareArgs eval block receiver value strict).Keeps K := by
  have hbound : ∀ value, (do
      let bound ← Run.signalling
        (recordingBacktrace (bindParams eval block.params receiver value strict))
      return (← MonadState.get).heap.toArgs bound : Run Signal H (List Value)).Keeps K := by
    intro value
    refine Run.Keeps.bind (fun c hc => ?_) fun bound => Run.Keeps.get.bind fun c => .pure _
    have hparams := Contract.Allows.bindParams hc block.params receiver value strict
      fun pattern value _ => hb pattern receiver value strict c hc
    exact hparams.recordingBacktrace.signalling
  cases value with
  | some value => exact hbound value
  | none => exact hempty.bind hbound

/-- Until a pattern is bound, preparing the arguments changes the heap at most. -/
theorem Contract.Allows.prepareArgs
    (hh : ∀ heap, K.Holds { c with heap := heap } ∧ K.Links c { c with heap := heap })
    (block : Block H.Body) (receiver : Value) (value : Option Value) (strict : Bool)
    (hb : ∀ heap pattern value, block.params = .pattern pattern -> K.Allows { c with heap := heap }
      (eval.bind pattern receiver value strict { c with heap := heap })) :
    K.Allows c (prepareArgs eval block receiver value strict c) := by
  have hbound : ∀ value heap, K.Allows { c with heap := heap } ((do
      let bound ← Run.signalling
        (ExecutionContext.recordingBacktrace
          (ExecutionContext.bindParams eval block.params receiver value strict))
      return (← get).heap.toArgs bound : Run Signal H (List Value)) { c with heap := heap }) := by
    intro value heap
    have hp := Contract.Allows.bindParams (hh heap).1 block.params receiver value strict (hb heap)
    exact hp.recordingBacktrace.signalling.bind
      fun bound => Run.Keeps.get.bind fun c => Run.Keeps.pure _
  cases value with
  | some value => exact hbound value c.heap
  | none => exact (hbound _ _).of_links (hh _).2

end Binding

theorem prepareArgs_balanced {F : Fault -> Prop} {eval : Evaluator H} {c : Context H}
    (hc : c.Based)
    (hb : ∀ pattern receiver value strict,
      (eval.bind pattern receiver value strict).Keeps (Contract.balanced F))
    (block : Block H.Body) (receiver : Value) (value : Option Value) (strict : Bool) :
    (Contract.balanced F).Allows c (prepareArgs eval block receiver value strict c) := by
  refine Contract.Allows.prepareArgs (fun heap => ?_) block receiver value strict
    fun heap pattern value _ => ?_
  · exact ⟨⟨hc.frames, hc.scopes, hc.marks, hc.blocks⟩, rfl, rfl, rfl, rfl, .refl _⟩
  · exact hb _ _ _ _ _ ⟨hc.frames, hc.scopes, hc.marks, hc.blocks⟩

/-! ## Every layer opens and closes -/

namespace Layer

variable {eval : Evaluator H} {F : Fault -> Prop} {c : Context H}

theorem Enters.based {l : Layer H} {inside : Context H} (hc : c.Based)
    (hb : ∀ pattern receiver value strict,
      (eval.bind pattern receiver value strict).Keeps (Contract.balanced F))
    (h : l.Enters eval c inside) : inside.Based := by
  cases l with
  | yield value receiver cls strict =>
      obtain ⟨block, args, bound, ht, hp, rfl⟩ := h
      have hk := prepareArgs_balanced (hc.entering block cls) hb block
        (block.receiverFor receiver cls) value strict
      rw [hp] at hk
      exact ⟨hk.1.frames, hk.1.scopes, hk.1.marks, hk.1.blocks⟩
  | iterate callback data => subst h; exact hc.capturing.attaching _
  | withBlock block => subst h; exact hc.attaching block
  | invoke receiver method => obtain ⟨mark, _, rfl⟩ := h; exact hc.invoking receiver method mark
  | openModule module => obtain ⟨mark, _, rfl⟩ := h; exact hc.openingModule module mark
  | catchTag tag => subst h; exact hc

/-- Closing a layer gives the stacks back when its code left them as it found them. -/
theorem Enters.sameStacks_giveBack {l : Layer H} {inside d : Context H}
    (h : l.Enters eval c inside) (hd : inside.SameStacks d) : c.SameStacks (l.giveBack c d) := by
  cases l with
  | yield value receiver cls strict => exact ⟨rfl, rfl, rfl, rfl, .refl _⟩
  | iterate callback data => subst h; exact ⟨hd.frames, rfl, rfl, hd.saved, hd.scopes⟩
  | withBlock block => subst h; exact ⟨hd.frames, rfl, rfl, hd.saved, hd.scopes⟩
  | invoke receiver method =>
      obtain ⟨mark, _, rfl⟩ := h
      exact ⟨rfl, hd.blocks, rfl, hd.saved, hd.scopes⟩
  | openModule module =>
      obtain ⟨mark, _, rfl⟩ := h
      exact ⟨rfl, hd.blocks, hd.marks, rfl, .refl _⟩
  | catchTag tag => subst h; exact hd

/-- A refusal fails where the context stands, unless arguments cannot be bound. -/
theorem Refuses.cases {l : Layer H} {exit : Exit Signal} {d : Context H}
    (h : l.Refuses eval c exit d) :
    (d = c ∧ ∃ failure, exit = .raised (.failure failure)) ∨
    ∃ block receiver value cls strict bound,
      prepareArgs eval block receiver value strict (c.entering block cls) = .error exit bound ∧
        d = c.resuming bound := by
  cases l with
  | yield value receiver cls strict =>
      rcases h with ⟨_, hd, hexit⟩ | ⟨block, bound, _, hbound, hd⟩
      · exact Or.inl ⟨hd, _, hexit⟩
      · exact Or.inr ⟨block, _, value, cls, strict, bound, hbound, hd⟩
  | invoke receiver method => exact Or.inl h
  | openModule module => exact Or.inl h
  | iterate callback data => cases h
  | withBlock block => cases h
  | catchTag tag => cases h

theorem Refuses.sameStacks {l : Layer H} {exit : Exit Signal} {d : Context H}
    (h : l.Refuses eval c exit d) : c.SameStacks d := by
  rcases h.cases with ⟨rfl, _⟩ | ⟨block, receiver, value, cls, strict, bound, _, rfl⟩
  · exact .refl _
  · exact ⟨rfl, rfl, rfl, rfl, .refl _⟩

/-- A refused layer brings in no fault that binding the arguments does not. -/
theorem Refuses.faults {l : Layer H} {exit : Exit Signal} {d : Context H} (hc : c.Based)
    (hb : ∀ pattern receiver value strict,
      (eval.bind pattern receiver value strict).Keeps (Contract.balanced F))
    (h : l.Refuses eval c exit d) (fault : Fault) (he : exit = .fault fault) : F fault := by
  subst he
  rcases h.cases with ⟨_, _, hx⟩ | ⟨block, receiver, value, cls, strict, bound, hp, _⟩
  · cases hx
  · have hk := prepareArgs_balanced (hc.entering block cls) hb block receiver value strict
    rw [hp] at hk
    exact hk.2 fault rfl

/-- The layer opens, and its closing gives back what the opening replaced; or it is refused. -/
def Opens (eval : Evaluator H) (c : Context H) (l : Layer H) : Prop :=
  (∃ close inside, l.opening eval c = .ok close inside ∧ l.Enters eval c inside ∧
    ∀ d, inside.SameStacks d → close d = .ok () (l.giveBack c d)) ∨
  ∃ exit d, l.opening eval c = .error exit d ∧ l.Refuses eval c exit d

theorem opens_yield (hc : c.Based)
    (hb : ∀ pattern receiver value strict,
      (eval.bind pattern receiver value strict).Keeps (Contract.balanced F))
    (value receiver : Option Value) (cls : Option (Ref .module)) (strict : Bool) :
    (Layer.yield value receiver cls strict).Opens eval c := by
  cases ht : c.yieldTarget? with
  | none =>
      refine Or.inr ⟨_, c, ?_, Or.inl ⟨ht, rfl, rfl⟩⟩
      exact Run.bind_of_error (beginYield_of_none ht eval value receiver cls strict)
  | some block =>
      have hk := prepareArgs_balanced (hc.entering block cls) hb block
        (block.receiverFor receiver cls) value strict
      have hbegin := beginYield_eq (hc.activates ht) eval value receiver cls strict
      cases hp : prepareArgs eval block (block.receiverFor receiver cls) value strict
          (c.entering block cls) with
      | ok args bound =>
          rw [hp] at hk
          simp only [Run.unwinding, hp] at hbegin
          refine Or.inl ⟨_, _, Run.bind_of_ok hbegin, ⟨block, args, bound, ht, hp, rfl⟩, ?_⟩
          intro d hd
          refine Activation.finish_eq (hc.activates ht) rfl cls ?_
          exact ⟨hd.frames.trans hk.2.frames, hd.blocks.trans hk.2.blocks,
            hd.marks.trans (congrArg (Stack.push . block.mark) hk.2.marks),
            hd.saved.trans hk.2.saved, hk.2.scopes.trans hd.scopes⟩
      | error exit bound =>
          -- The mark is not pushed yet, so leaving the block is all there is to undo.
          rw [hp] at hk
          simp only [Run.unwinding, hp, leaveBlock_eq (hc.activates ht) hk.1.2] at hbegin
          exact Or.inr ⟨exit, _, Run.bind_of_error hbegin, Or.inr ⟨block, bound, ht, hp, rfl⟩⟩

theorem opens (hc : c.Based)
    (hb : ∀ pattern receiver value strict,
      (eval.bind pattern receiver value strict).Keeps (Contract.balanced F)) (l : Layer H) :
    l.Opens eval c := by
  obtain ⟨mark, hm⟩ := hc.exists_mark
  cases l with
  | yield value receiver cls strict => exact opens_yield hc hb value receiver cls strict
  | iterate callback data =>
      refine Or.inl ⟨detachBlock, _, ?_, rfl, fun d hd => detachBlock_eq hd.blocks hd.marks⟩
      simp [opening, newBlockWithSelf_eq hc.capturable, pushMark, pushBlock, Context.attaching]
  | withBlock block =>
      refine Or.inl ⟨detachBlock, _, ?_, rfl, fun d hd => detachBlock_eq hd.blocks hd.marks⟩
      simp [opening, pushMark, pushBlock, Context.attaching]
  | invoke receiver method =>
      rcases checkDepth_cases c with hd | ⟨failure, hd⟩
      · refine Or.inl ⟨leaveFrame, _, ?_, ⟨mark, hm, rfl⟩, fun d hd => leaveFrame_eq hd⟩
        simp [opening, Run.signalling, hd, currentMark_of_top? hm, pushMark, openFrame,
          Context.invoking, Context.methodFrame]
      · refine Or.inr ⟨_, c, ?_, rfl, failure, rfl⟩
        simp [opening, Run.signalling, hd]
  | openModule module =>
      rcases checkDepth_cases c with hd | ⟨failure, hd⟩
      · refine Or.inl ⟨leaveModule c.ns, _, ?_, ⟨mark, hm, rfl⟩, fun d hd => leaveModule_eq hd⟩
        simp [opening, Run.signalling, hd, currentMark_of_top? hm, openFrame, pushScope,
          pushClass, setNamespace, Context.openingModule, Context.moduleFrame]
      · refine Or.inr ⟨_, c, ?_, rfl, failure, rfl⟩
        simp [opening, Run.signalling, hd]
  | catchTag tag => exact Or.inl ⟨_, c, rfl, rfl, fun d _ => rfl⟩

end Layer

/-! ## The rule for a whole layer -/

def Contract.startingAt (K : Contract H) (c : Context H) : Contract H :=
  { K with Holds := fun d => K.Holds d ∧ K.Links c d }

theorem Contract.Allows.startingAt {K : Contract H} {α : Type} {c d : Context H}
    {r : EStateM.Result (Exit ε) (Context H) α} (hd : (K.startingAt c).Holds d)
    (h : K.Allows d r) : (K.startingAt c).Allows d r := by
  cases r with
  | ok a e => exact ⟨⟨h.1, K.trans hd.2 h.2⟩, h.2⟩
  | error exit e => exact ⟨⟨⟨h.1.1, K.trans hd.2 h.1.2⟩, h.1.2⟩, h.2⟩

theorem Run.Keeps.startingAt {K : Contract H} {α : Type} {run : Run ε H α} (h : run.Keeps K)
    (c : Context H) : run.Keeps (K.startingAt c) :=
  fun d hd => (h d hd.1).startingAt hd

theorem Contract.Allows.of_startingAt {K : Contract H} {α : Type} {c d : Context H}
    {r : EStateM.Result (Exit ε) (Context H) α} (h : (K.startingAt c).Allows d r) :
    K.Allows d r := by
  cases r with
  | ok a e => exact ⟨h.1.1, h.2⟩
  | error exit e => exact ⟨⟨h.1.1.1, h.1.2⟩, h.2⟩

namespace Layer

variable {eval : Evaluator H} {F : Fault -> Prop} {c : Context H}

/-- A layer that is not refused ends the way that the runs of its code ended, in the context that
its closing gives back. -/
theorem around_cases (hc : c.Based)
    (hb : ∀ pattern receiver value strict,
      (eval.bind pattern receiver value strict).Keeps (Contract.balanced F)) (l : Layer H)
    (code : Run Signal H Value)
    (hrun : ∀ inside, l.Enters eval c inside ->
      inside.SameStacks ((l.rounds (l.codeAt eval code c) eval.limit).after inside)) :
    (∃ inside, l.Enters eval c inside ∧ l.around eval code c =
      ((l.rounds (l.codeAt eval code c) eval.limit).leaving (l.giveBack c)) inside) ∨
    ∃ exit d, l.around eval code c = .error exit d ∧ l.Refuses eval c exit d := by
  rw [around_eq]
  rcases opens hc hb l with ⟨close, inside, ho, he, hclose⟩ | ⟨exit, d, ho, hr⟩
  · refine Or.inl ⟨inside, he, ?_⟩
    rw [Run.bind_of_ok ho, Run.ensuring_of_restore (l.giveBack c) (hclose _ (hrun inside he))]
  · exact Or.inr ⟨exit, d, Run.bind_of_error ho, hr⟩

/-- A layer keeps the contract `K` around code that keeps the contract `L`, when its opening leads
from the one into the other, and its closing leads back. -/
theorem around_allows {K L : Contract H} (hc : c.Based)
    (hb : ∀ pattern receiver value strict,
      (eval.bind pattern receiver value strict).Keeps (Contract.balanced F))
    (hf : ∀ fault, L.Faults fault -> K.Faults fault) (l : Layer H) (code : Run Signal H Value)
    (hin : ∀ inside, l.Enters eval c inside ->
      L.Allows inside (l.rounds (l.codeAt eval code c) eval.limit inside))
    (hout : ∀ inside d, l.Enters eval c inside -> L.Holds d -> L.Links inside d ->
      inside.SameStacks d ∧ K.Holds (l.giveBack c d) ∧ K.Links c (l.giveBack c d))
    (hno : ∀ exit d, l.Refuses eval c exit d ->
      K.Allows c (.error exit d : EStateM.Result (Exit Signal) (Context H) Value)) :
    K.Allows c (l.around eval code c) := by
  rcases around_cases hc hb l code fun inside he =>
      (hout inside _ he (hin inside he).after.1 (hin inside he).after.2).1 with
    ⟨inside, he, heq⟩ | ⟨exit, d, heq, hr⟩
  · have hrun := hin inside he
    have hback := (hout inside _ he hrun.after.1 hrun.after.2).2
    rw [heq, Run.leaving]
    cases hx : l.rounds (l.codeAt eval code c) eval.limit inside with
    | ok value d =>
        rw [Run.after_of_ok hx] at hback
        exact hback
    | error exit d =>
        rw [hx] at hrun
        rw [Run.after_of_error hx] at hback
        exact ⟨hback, fun fault hfault => hf fault (hrun.2 fault hfault)⟩
  · rw [heq]
    exact hno exit d hr

/-- The code of a yield is the body of the block that it activates, on the bound arguments. -/
theorem codeAt_yield (hc : c.Based) {value receiver : Option Value} {cls : Option (Ref .module)}
    {strict : Bool} {block : Block H.Body} {args : List Value} {bound : Context H}
    (ht : c.yieldTarget? = some block)
    (hp : prepareArgs eval block (block.receiverFor receiver cls) value strict
      (c.entering block cls) = .ok args bound) (code : Run Signal H Value) :
    (Layer.yield value receiver cls strict).codeAt eval code c =
      runCode eval block.code (block.receiverFor receiver cls) args := by
  have hbegin := beginYield_eq (hc.activates ht) eval value receiver cls strict
  simp only [Run.unwinding, hp] at hbegin
  simp only [codeAt, hbegin, Activation.body]

end Layer

end ExecutionContext
