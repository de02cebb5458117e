import ExecutionContext.Proofs.Layer

/-! # What can escape from a layer

Opening a layer raises failures at most, and closing one raises nothing. So what a
layer raises beyond failures comes out of its code, and is a signal to which the
layer gives no meaning. Nothing is asked of the code here, nor of the context.
-/

namespace ExecutionContext

variable {H : Host} {ε α β : Type}

/-! ## What a run can raise -/

namespace Run

def Raises (P : ε -> Prop) (run : Run ε H α) : Prop :=
  ∀ c signal d, run c = .error (.raised signal) d -> P signal

def Answers (P : α -> Prop) (run : Run ε H α) : Prop :=
  ∀ c a d, run c = .ok a d -> P a

/-- The run answers or breaks the stack discipline, and leaves the heap alone. -/
def Tidy (run : Run ε H α) : Prop :=
  ∀ c, (∃ a d, run c = .ok a d ∧ d.heap = c.heap) ∨
    ∃ fault d, run c = .error (.fault fault) d ∧ d.heap = c.heap

namespace Raises

variable {P : ε -> Prop}

theorem pure (a : α) : Raises P (Pure.pure a : Run ε H α) := by
  intro c signal d h
  cases h

theorem exhausted : Raises P (Run.exhausted : Run ε H α) := by
  intro c signal d h
  cases h

theorem get : Raises P (MonadState.get : Run ε H (Context H)) := by
  intro c signal d h
  cases h

theorem set (d : Context H) : Raises P (MonadStateOf.set d : Run ε H PUnit) := by
  intro c signal e h
  cases h

theorem modifyGet (change : Context H -> α × Context H) :
    Raises P (MonadStateOf.modifyGet change : Run ε H α) := by
  intro c signal d h
  cases h

theorem bind {run : Run ε H α} {next : α -> Run ε H β} (h : Raises P run)
    (hn : ∀ a, Raises P (next a)) : Raises P (run >>= next) := by
  intro c signal d hr
  cases he : run c with
  | ok a e =>
      rw [bind_of_ok he] at hr
      exact hn a e signal d hr
  | error exit e =>
      rw [bind_of_error he] at hr
      cases hr
      exact h c signal d he

theorem unwinding {run : Run ε H α} {restore : Run ε H Unit} (h : Raises P run)
    (hr : Raises P restore) : Raises P (run.unwinding restore) := by
  intro c signal d he
  simp only [Run.unwinding] at he
  cases hx : run c with
  | ok a e => simp [hx] at he
  | error exit e =>
      rw [hx] at he
      cases hy : restore e with
      | ok _ f =>
          simp only [hy] at he
          cases he
          exact h c signal e hx
      | error other f =>
          simp only [hy] at he
          cases he
          exact hr e signal d hy

theorem signalling (run : Run Failure H α) :
    Raises (fun signal => ∃ failure, signal = Signal.failure failure) run.signalling := by
  intro c signal d h
  unfold Run.signalling at h
  cases hr : run c with
  | ok a e => simp [hr] at h
  | error exit e =>
      rw [hr] at h
      cases exit with
      | raised failure => cases h; exact ⟨failure, rfl⟩
      | fault fault => cases h
      | exhausted => cases h

end Raises

namespace Answers

theorem pure {P : α -> Prop} {a : α} (h : P a) : Answers P (Pure.pure a : Run ε H α) := by
  intro c b d hr
  cases hr
  exact h

theorem bind {P : β -> Prop} {run : Run ε H α} {next : α -> Run ε H β}
    (hn : ∀ a, Answers P (next a)) : Answers P (run >>= next) := by
  intro c b d hr
  cases he : run c with
  | ok a e =>
      rw [bind_of_ok he] at hr
      exact hn a e b d hr
  | error exit e =>
      rw [bind_of_error he] at hr
      cases hr

end Answers

namespace Tidy

theorem raises {run : Run ε H α} (h : run.Tidy) (P : ε -> Prop) : run.Raises P := by
  intro c signal d hr
  rcases h c with ⟨a, e, he, _⟩ | ⟨fault, e, he, _⟩
  · rw [he] at hr
    cases hr
  · rw [he] at hr
    cases hr

theorem pure (a : α) : (Pure.pure a : Run ε H α).Tidy :=
  fun c => Or.inl ⟨a, c, rfl, rfl⟩

theorem get : (MonadState.get : Run ε H (Context H)).Tidy :=
  fun c => Or.inl ⟨c, c, rfl, rfl⟩

theorem modify {change : Context H -> Context H} (h : ∀ c, (change c).heap = c.heap) :
    (MonadState.modifyGet fun c => (⟨⟩, change c) : Run ε H PUnit).Tidy :=
  fun c => Or.inl ⟨⟨⟩, change c, rfl, h c⟩

theorem bind {run : Run ε H α} {next : α -> Run ε H β} (h : run.Tidy)
    (hn : ∀ a, (next a).Tidy) : (run >>= next).Tidy := by
  intro c
  rcases h c with ⟨a, d, he, hd⟩ | ⟨fault, d, he, hd⟩
  · rw [bind_of_ok he, ← hd]
    exact hn a d
  · rw [bind_of_error he]
    exact Or.inr ⟨fault, d, rfl, hd⟩

theorem replacing {γ : Type} (part : Context H -> Except Fault (α × γ))
    (put : Context H -> γ -> Context H) (h : ∀ c s, (put c s).heap = c.heap) :
    (do
      let c ← MonadState.get
      let (a, s) ← ofFault (part c)
      MonadStateOf.set (put c s)
      return a : Run ε H α).Tidy := by
  intro c
  rw [bind_of_ok (get_apply c)]
  cases hp : part c with
  | ok found => exact Or.inl ⟨found.1, put c found.2, rfl, h c found.2⟩
  | error fault => exact Or.inr ⟨fault, c, rfl, rfl⟩

theorem reading (part : Context H -> Except Fault α) :
    (do ofFault (part (← MonadState.get)) : Run ε H α).Tidy := by
  intro c
  rw [bind_of_ok (get_apply c)]
  cases hp : part c with
  | ok found => exact Or.inl ⟨found, c, rfl, rfl⟩
  | error fault => exact Or.inr ⟨fault, c, rfl, rfl⟩

/-! ## The steps of openings and closings -/

theorem currentScope : (ExecutionContext.currentScope : Run ε H _).Tidy :=
  reading fun c => c.scopes.current

theorem currentMark : (ExecutionContext.currentMark : Run ε H _).Tidy :=
  reading fun c => c.marks.current

theorem popFrame : (ExecutionContext.popFrame : Run ε H _).Tidy :=
  replacing (fun c => c.frames.pop) (fun c frames => { c with frames := frames }) fun _ _ => rfl

theorem popBlock : (ExecutionContext.popBlock : Run ε H _).Tidy :=
  replacing (fun c => c.blocks.pop) (fun c blocks => { c with blocks := blocks }) fun _ _ => rfl

theorem popMark : (ExecutionContext.popMark : Run ε H _).Tidy :=
  replacing (fun c => c.marks.pop) (fun c marks => { c with marks := marks }) fun _ _ => rfl

theorem popScope : (ExecutionContext.popScope : Run ε H _).Tidy :=
  replacing (fun c => c.scopes.pop) (fun c scopes => { c with scopes := scopes }) fun _ _ => rfl

theorem popClass : (ExecutionContext.popClass : Run ε H _).Tidy :=
  replacing (fun c => c.classes.pop) (fun c classes => { c with classes := classes }) fun _ _ => rfl

theorem setTopScope (scope : Ref .scope) : (ExecutionContext.setTopScope scope : Run ε H _).Tidy :=
  replacing (fun c => c.scopes.setTop scope) (fun c scopes => { c with scopes := scopes })
    fun _ _ => rfl

theorem pushMark (mark : Attachment) : (ExecutionContext.pushMark mark : Run ε H _).Tidy :=
  modify fun _ => rfl

theorem pushBlock (block : Block H.Body) : (ExecutionContext.pushBlock block : Run ε H _).Tidy :=
  modify fun _ => rfl

theorem pushClass (cls : Option (Ref .module)) :
    (ExecutionContext.pushClass cls : Run ε H _).Tidy :=
  modify fun _ => rfl

theorem setNamespace (ns : Option Namespace) :
    (ExecutionContext.setNamespace ns : Run ε H _).Tidy :=
  fun c => Or.inl ⟨c.ns, { c with ns := ns }, rfl, rfl⟩

theorem openFrame (frame : Frame) : (ExecutionContext.openFrame frame : Run ε H _).Tidy :=
  fun _ => Or.inl ⟨_, _, rfl, rfl⟩

theorem pushScope (scope : Scope) : (ExecutionContext.pushScope scope : Run ε H _).Tidy :=
  fun _ => Or.inl ⟨_, _, rfl, rfl⟩

theorem newBlockWithSelf (params : Params) (code : Code H.Body) (receiver : Value) :
    (ExecutionContext.newBlockWithSelf params code receiver : Run ε H _).Tidy :=
  (reading fun c => c.frames.current).bind fun _ => currentScope.bind fun _ =>
    currentMark.bind fun _ => fun _ => Or.inl ⟨_, _, rfl, rfl⟩

theorem enterBlock (cls : Option (Ref .module)) :
    (ExecutionContext.enterBlock cls : Run ε H _).Tidy := by
  refine currentScope.bind fun scope => get.bind fun c => popBlock.bind fun block => ?_
  refine Tidy.bind (modify fun _ => rfl) fun _ => ?_
  refine Tidy.bind (modify fun _ => rfl) fun _ => ?_
  refine (setTopScope block.scope).bind fun _ => ?_
  refine Tidy.bind (modify fun _ => rfl) fun _ => ?_
  exact (pushClass (cls.or block.cls)).bind fun _ => pure _

theorem leaveBlock (block : Block H.Body) (suspended : Suspended) :
    (ExecutionContext.leaveBlock block suspended : Run ε H _).Tidy := by
  refine popClass.bind fun _ => ?_
  refine Tidy.bind (modify fun _ => rfl) fun _ => ?_
  refine (pushBlock block).bind fun _ => popFrame.bind fun _ => ?_
  refine Tidy.bind (modify fun _ => rfl) fun _ => ?_
  exact (setTopScope suspended.scope).bind fun _ => pure _

end Tidy

end Run

/-! ## Openings and closings -/

theorem Activation.finish_tidy (a : Activation H) : a.finish.Tidy :=
  Run.Tidy.popMark.bind fun _ => Run.Tidy.leaveBlock a.block a.suspended

theorem detachBlock_tidy : (detachBlock : Run Signal H Unit).Tidy :=
  Run.Tidy.popBlock.bind fun _ => Run.Tidy.popMark.bind fun _ => Run.Tidy.pure _

theorem leaveFrame_tidy : (leaveFrame : Run Signal H Unit).Tidy :=
  Run.Tidy.popFrame.bind fun _ => Run.Tidy.popMark.bind fun _ => Run.Tidy.pure _

theorem leaveModule_tidy (outer : Option Namespace) :
    (leaveModule outer : Run Signal H Unit).Tidy :=
  (Run.Tidy.setNamespace outer).bind fun _ => Run.Tidy.popClass.bind fun _ =>
    Run.Tidy.popScope.bind fun _ => Run.Tidy.popFrame.bind fun _ => Run.Tidy.pure _

theorem prepareArgs_raises (eval : Evaluator H) (block : Block H.Body) (self : Value)
    (value : Option Value) (strict : Bool) :
    (prepareArgs eval block self value strict).Raises
      fun signal => ∃ failure, signal = .failure failure := by
  have hbound : ∀ value, (do
      let bound ← Run.signalling
        (recordingBacktrace (bindParams eval block.params self value strict))
      return (← get).heap.toArgs bound : Run Signal H (List Value)).Raises
        fun signal => ∃ failure, signal = .failure failure :=
    fun value => (Run.Raises.signalling _).bind fun bound =>
      Run.Raises.get.bind fun c => Run.Raises.pure _
  cases value with
  | some value => exact hbound value
  | none => exact (Run.Raises.modifyGet _).bind fun value => hbound value

namespace Layer

/-- Closing an opened layer answers or breaks the stack discipline, and leaves the heap alone. -/
theorem opening_tidy {eval : Evaluator H} {l : Layer H} {c inside : Context H}
    {close : Run Signal H Unit} (h : l.opening eval c = .ok close inside) : close.Tidy := by
  have answers : (l.opening eval).Answers Run.Tidy := by
    cases l with
    | yield value receiver cls strict =>
        exact .bind fun a => .pure a.finish_tidy
    | iterate callback data =>
        exact .bind fun c => .bind fun block => .bind fun _ => .bind fun _ => .pure detachBlock_tidy
    | withBlock block => exact .bind fun _ => .bind fun _ => .pure detachBlock_tidy
    | invoke receiver method =>
        exact .bind fun _ => .bind fun mark => .bind fun _ => .bind fun c => .bind fun _ =>
          .pure leaveFrame_tidy
    | openModule module =>
        refine .bind fun _ => .bind fun mark => .bind fun c => .bind fun _ => .bind fun _ => ?_
        exact .bind fun _ => .bind fun _ => .bind fun outer => .pure (leaveModule_tidy outer)
    | catchTag tag => exact .pure (.pure ())
  exact answers c close inside h

theorem opening_raises (eval : Evaluator H) (l : Layer H) :
    (l.opening eval).Raises fun signal => ∃ failure, signal = .failure failure := by
  cases l with
  | yield value receiver cls strict =>
      refine Run.Raises.bind (Run.Raises.get.bind fun c => ?_) fun a => Run.Raises.pure _
      split
      · exact Run.Raises.signalling _
      · refine ((Run.Tidy.enterBlock cls).raises _).bind fun entered => ?_
        refine Run.Raises.bind (Run.Raises.unwinding ?_ ?_) fun args => ?_
        · exact prepareArgs_raises eval _ _ value strict
        · exact (Run.Tidy.leaveBlock _ _).raises _
        · exact ((Run.Tidy.pushMark _).raises _).bind fun _ => Run.Raises.pure _
  | iterate callback data =>
      refine Run.Raises.get.bind fun c => ?_
      refine ((Run.Tidy.newBlockWithSelf _ _ _).raises _).bind fun block => ?_
      refine ((Run.Tidy.pushMark _).raises _).bind fun _ => ?_
      exact ((Run.Tidy.pushBlock block).raises _).bind fun _ => Run.Raises.pure _
  | withBlock block =>
      refine ((Run.Tidy.pushMark _).raises _).bind fun _ => ?_
      exact ((Run.Tidy.pushBlock block).raises _).bind fun _ => Run.Raises.pure _
  | invoke receiver method =>
      refine (Run.Raises.signalling _).bind fun _ => ?_
      refine (Run.Tidy.currentMark.raises _).bind fun mark => ?_
      refine ((Run.Tidy.pushMark _).raises _).bind fun _ => Run.Raises.get.bind fun c => ?_
      exact ((Run.Tidy.openFrame _).raises _).bind fun _ => Run.Raises.pure _
  | openModule module =>
      refine (Run.Raises.signalling _).bind fun _ => ?_
      refine (Run.Tidy.currentMark.raises _).bind fun mark => Run.Raises.get.bind fun c => ?_
      refine (Run.Raises.set _).bind fun _ => ?_
      refine ((Run.Tidy.openFrame _).raises _).bind fun _ => ?_
      refine ((Run.Tidy.pushScope _).raises _).bind fun _ => ?_
      refine ((Run.Tidy.pushClass _).raises _).bind fun _ => ?_
      exact ((Run.Tidy.setNamespace _).raises _).bind fun outer => Run.Raises.pure _
  | catchTag tag => exact Run.Raises.pure _

/-! ## What escapes -/

theorem rule_failure (l : Layer H) (heap : Heap) (failure : Failure) :
    l.rule heap (.failure failure) = .passed := by
  cases l <;> rfl

theorem settle_raised {rule : Rule} {again : Run Signal H Value}
    {r : EStateM.Result (Exit Signal) (Context H) Value} {signal : Signal} {d : Context H}
    (h : rule.settle again r = .error (.raised signal) d) :
    (r = .error (.raised signal) d ∧ rule d.heap signal = .passed) ∨
      ∃ e, again e = .error (.raised signal) d := by
  cases r with
  | ok value e => cases h
  | error exit e =>
      cases exit with
      | fault fault => cases h
      | exhausted => cases h
      | raised found =>
          simp only [Rule.settle] at h
          cases hm : rule e.heap found with
          | passed => rw [hm] at h; cases h; exact Or.inl ⟨rfl, hm⟩
          | answered value => rw [hm] at h; cases h
          | repeated => rw [hm] at h; exact Or.inr ⟨e, h⟩
          | undecided => rw [hm] at h; cases h

/-- A signal that leaves the rounds is one that the layer gives no meaning, and that its code
raised. -/
theorem rounds_raised {l : Layer H} {code : Run Signal H Value} {limit : Nat} {c d : Context H}
    {signal : Signal} (h : l.rounds code limit c = .error (.raised signal) d) :
    l.rule d.heap signal = .passed ∧ ∃ e, code e = .error (.raised signal) d := by
  induction limit generalizing c with
  | zero =>
      -- Without rounds only the layers that never repeat run their code, and they run it once.
      have once : ∀ {rule : Rule},
          rule.settle Run.exhausted (code c) = .error (.raised signal) d ->
          rule d.heap signal = .passed ∧ ∃ e, code e = .error (.raised signal) d := by
        intro rule hs
        rcases settle_raised hs with ⟨hr, hm⟩ | ⟨e, he⟩
        · exact ⟨hm, c, hr⟩
        · cases he
      cases l with
      | yield _ _ _ _ => cases h
      | iterate _ _ => cases h
      | withBlock _ => cases h
      | invoke _ _ => exact once ((catchingReturn_eq_settle code _ c).symm.trans h)
      | openModule _ => exact ⟨rfl, c, h⟩
      | catchTag tag => exact once ((catchTag_eq_settle tag code _ c).symm.trans h)
  | succ limit ih =>
      rw [rounds_succ] at h
      rcases settle_raised h with ⟨hr, hm⟩ | ⟨e, he⟩
      · exact ⟨hm, c, hr⟩
      · exact ih he

/-- What an opened layer raises came out of its rounds, after which it was closed. -/
theorem rounds_of_around {eval : Evaluator H} {code : Run Signal H Value} {l : Layer H}
    {c d inside : Context H} {close : Run Signal H Unit} {signal : Signal}
    (ho : l.opening eval c = .ok close inside)
    (h : l.around eval code c = .error (.raised signal) d) :
    ∃ e, l.rounds (l.codeAt eval code c) eval.limit inside = .error (.raised signal) e ∧
      close e = .ok () d := by
  rw [around_eq, Run.bind_of_ok ho] at h
  simp only [Run.ensuring] at h
  cases hr : l.rounds (l.codeAt eval code c) eval.limit inside with
  | ok value e =>
      rcases opening_tidy ho e with ⟨_, f, hc, _⟩ | ⟨fault, f, hc, _⟩
      · simp [hr, hc] at h
      · simp [hr, hc] at h
  | error exit e =>
      rcases opening_tidy ho e with ⟨_, f, hc, _⟩ | ⟨fault, f, hc, _⟩
      · simp only [hr, hc] at h
        cases h
        exact ⟨e, rfl, hc⟩
      · simp [hr, hc] at h

/-- What an operation raises it gives no meaning, and it is a failure or was raised by its code. -/
theorem around_raised {eval : Evaluator H} {code : Run Signal H Value} {l : Layer H}
    {c d : Context H} {signal : Signal}
    (h : l.around eval code c = .error (.raised signal) d) :
    l.rule d.heap signal = .passed ∧ ((∃ failure, signal = .failure failure) ∨
      ∃ e f, l.codeAt eval code c e = .error (.raised signal) f) := by
  cases ho : l.opening eval c with
  | error exit e =>
      rw [around_eq, Run.bind_of_error ho] at h
      cases h
      obtain ⟨failure, rfl⟩ := opening_raises eval l c signal d ho
      exact ⟨rule_failure l d.heap failure, Or.inl ⟨failure, rfl⟩⟩
  | ok close inside =>
      obtain ⟨e, hr, hclose⟩ := rounds_of_around ho h
      obtain ⟨hm, f, hf⟩ := rounds_raised hr
      have hheap : d.heap = e.heap := by
        rcases opening_tidy ho e with ⟨_, g, hg, hheap⟩ | ⟨fault, g, hg, _⟩
        · cases hg.symm.trans hclose
          exact hheap
        · cases hg.symm.trans hclose
      rw [← hheap] at hm
      exact ⟨hm, Or.inr ⟨f, e, hf⟩⟩

end Layer

/-! ## What escapes from single operations -/

theorem yieldBlock_raised {eval : Evaluator H} {value receiver : Option Value}
    {cls : Option (Ref .module)} {strict : Bool} {c d : Context H} {signal : Signal}
    (h : yieldBlock eval value receiver cls strict c = .error (.raised signal) d) :
    signal ≠ .next ∧ signal ≠ .redo ∧ ∀ carried, signal ≠ .returnWith carried := by
  have hm := (@Layer.around_raised H eval Run.exhausted (.yield value receiver cls strict)
    c d signal h).1
  refine ⟨?_, ?_, ?_⟩
  · rintro rfl
    cases hm
  · rintro rfl
    cases hm
  · rintro carried rfl
    cases hm

theorem iterate_raised {eval : Evaluator H} {driver : Value -> Run Signal H Value}
    {callback : H.Body} {data1 data2 : Value} {c d : Context H} {signal : Signal}
    (h : iterate eval driver data1 callback data2 c = .error (.raised signal) d) :
    signal ≠ .retry ∧ (∀ carried, signal ≠ .breakWith carried) ∧
      ∀ carried, signal ≠ .returnWith carried := by
  have hm := (@Layer.around_raised H eval (driver data1) (.iterate callback data2) c d signal h).1
  refine ⟨?_, ?_, ?_⟩
  · rintro rfl
    cases hm
  · rintro carried rfl
    cases hm
  · rintro carried rfl
    cases hm

theorem callWithBlock_raised {eval : Evaluator H} {block : Block H.Body}
    {call : Run Signal H Value} {c d : Context H} {signal : Signal}
    (h : callWithBlock eval block call c = .error (.raised signal) d) :
    signal ≠ .retry ∧ (∀ carried, signal ≠ .breakWith carried) ∧
      ((∃ failure, signal = .failure failure) ∨ ∃ e f, call e = .error (.raised signal) f) := by
  obtain ⟨hm, horigin⟩ := @Layer.around_raised H eval call (.withBlock block) c d signal h
  refine ⟨?_, ?_, horigin⟩
  · rintro rfl
    cases hm
  · rintro carried rfl
    cases hm

theorem invoke_raised {receiver : Value} {method : String} {body : Run Signal H Value}
    {c d : Context H} {signal : Signal}
    (h : invoke receiver method body c = .error (.raised signal) d) :
    (∀ carried, signal ≠ .returnWith carried) ∧
      ((∃ failure, signal = .failure failure) ∨ ∃ e f, body e = .error (.raised signal) f) := by
  -- A method call does not look at the evaluator, so any one will do.
  let eval : Evaluator H := ⟨0, fun _ _ _ => body, fun _ _ _ => body, fun _ _ _ _ => return ()⟩
  obtain ⟨hm, horigin⟩ := @Layer.around_raised H eval body (.invoke receiver method) c d signal h
  refine ⟨?_, horigin⟩
  rintro carried rfl
  cases hm

theorem catchTag_raised {tag : Value} {body : Run Signal H Value} {c d : Context H}
    {signal : Signal} (h : catchTag tag body c = .error (.raised signal) d) (thrown carried : Value)
    (hs : signal = .throwTo thrown carried) : d.heap.equal? thrown tag = some false := by
  rw [catchTag_eq_settle tag body Run.exhausted] at h
  rcases Layer.settle_raised h with ⟨_, hm⟩ | ⟨e, he⟩
  · subst hs
    simp only [Rule.catching] at hm
    cases he : d.heap.equal? thrown tag with
    | none => rw [he] at hm; cases hm
    | some same =>
        cases same with
        | true => rw [he] at hm; cases hm
        | false => rfl
  · cases he

/-- What leaves a call with a block around a method that yields is a failure or a throw: the yield
takes three of the other signals, and the call the remaining two. -/
theorem callYielding_raised {eval : Evaluator H} {block : Block H.Body} {receiver : Value}
    {method : String} {value override : Option Value} {cls : Option (Ref .module)} {strict : Bool}
    {c d : Context H} {signal : Signal}
    (h : callWithBlock eval block
      (invoke receiver method (yieldBlock eval value override cls strict)) c =
        .error (.raised signal) d) :
    (∃ failure, signal = .failure failure) ∨ ∃ tag carried, signal = .throwTo tag carried := by
  obtain ⟨hretry, hbreak, hfailure | ⟨e, f, hinvoke⟩⟩ := callWithBlock_raised h
  · exact Or.inl hfailure
  · obtain ⟨_, hfailure | ⟨g, i, hyield⟩⟩ := invoke_raised hinvoke
    · exact Or.inl hfailure
    · obtain ⟨hnext, hredo, hreturn⟩ := yieldBlock_raised hyield
      cases signal with
      | failure failure => exact Or.inl ⟨failure, rfl⟩
      | throwTo tag carried => exact Or.inr ⟨tag, carried, rfl⟩
      | breakWith carried => exact absurd rfl (hbreak carried)
      | next => exact absurd rfl hnext
      | redo => exact absurd rfl hredo
      | retry => exact absurd rfl hretry
      | returnWith carried => exact absurd rfl (hreturn carried)

end ExecutionContext
