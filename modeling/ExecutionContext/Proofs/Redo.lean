import ExecutionContext.Proofs.Steady

/-! # Passes that are run again

A body that signals `redo` is run again, on the receiver and the arguments that were
fixed before its first pass, and in the very context that the pass before it left.
Parameters are bound once, before all passes. An evaluator that logs what it is asked
to do, and in which context, shows all this; the code that it runs cannot see the log.
-/

namespace ExecutionContext

variable {H : Host} {ε α : Type}

/-! ## A log of what an evaluator does -/

/-- One thing that an evaluator was asked to do, and the context it was asked in. -/
inductive Request (H : Host) where
  | bind (pattern : Pattern) (receiver value : Value) (strict : Bool) (scene : Context H)
  | body (code : H.Body) (receiver : Value) (args : List Value) (scene : Context H)
  | callback (code : H.Body) (packed data : Value) (scene : Context H)

/-- A log beside the host's own state. -/
abbrev Logged (H : Host) : Host :=
  { Body := H.Body, State := H.State × List (Request H) }

namespace Context

def unlogged (c : Context (Logged H)) : Context H :=
  { c with host := c.host.1 }

def log (c : Context (Logged H)) : List (Request H) :=
  c.host.2

def logged (c : Context H) (log : List (Request H)) : Context (Logged H) :=
  { c with host := (c.host, log) }

@[simp] theorem unlogged_logged (c : Context H) (log : List (Request H)) :
    (c.logged log).unlogged = c := rfl

@[simp] theorem log_logged (c : Context H) (log : List (Request H)) : (c.logged log).log = log := rfl

end Context

/-- A run that cannot see the log. -/
def Run.logged (run : Run ε H α) : Run ε (Logged H) α := fun c =>
  match run c.unlogged with
  | .ok a d => .ok a (d.logged c.log)
  | .error exit d => .error exit (d.logged c.log)

theorem Run.logged_of_ok {run : Run ε H α} {c : Context (Logged H)} {a : α} {d : Context H}
    (h : run c.unlogged = .ok a d) : run.logged c = .ok a (d.logged c.log) := by
  rw [logged, h]

theorem Run.logged_of_error {run : Run ε H α} {c : Context (Logged H)} {exit : Exit ε}
    {d : Context H} (h : run c.unlogged = .error exit d) :
    run.logged c = .error exit (d.logged c.log) := by
  rw [logged, h]

theorem Run.after_logged (run : Run ε H α) (c : Context (Logged H)) :
    run.logged.after c = (run.after c.unlogged).logged c.log := by
  cases h : run c.unlogged with
  | ok a d => rw [after_of_ok (logged_of_ok h), after_of_ok h]
  | error exit d => rw [after_of_error (logged_of_error h), after_of_error h]

def Run.noting (request : Context H -> Request H) (run : Run ε H α) : Run ε (Logged H) α := fun c =>
  run.logged (c.unlogged.logged (c.log ++ [request c.unlogged]))

def Evaluator.logging (eval : Evaluator H) : Evaluator (Logged H) where
  limit := eval.limit
  runBody code receiver args := (eval.runBody code receiver args).noting (.body code receiver args)
  runCallback code packed data :=
    (eval.runCallback code packed data).noting (.callback code packed data)
  bind pattern receiver value strict :=
    (eval.bind pattern receiver value strict).noting (.bind pattern receiver value strict)

/-- A pass of an activation, as its evaluator is asked for it: the code of a body gets the receiver
and the arguments, and that of a callback the arguments packed in one value. -/
def Activation.turn (a : Activation (Logged H)) (start : Context H) : Request H :=
  match a.block.code with
  | .body code => .body code a.self a.args start
  | .callback code data =>
      .callback code (start.heap.fromArgs a.args).1 data
        { start with heap := (start.heap.fromArgs a.args).2 }

/-- Between the contexts the parameters were bound, once if they are a pattern, and nothing else was
asked of the evaluator. -/
def Params.BoundOnce (params : Params) (c d : Context (Logged H)) : Prop :=
  match params with
  | .pattern parameters => ∃ receiver value strict scene,
      d.log = c.log ++ [.bind parameters receiver value strict scene]
  | .undeclared | .empty => d.log = c.log

theorem Params.BoundOnce.congr {params : Params} {c c' d d' : Context (Logged H)}
    (h : params.BoundOnce c d) (hc : c'.log = c.log) (hd : d'.log = d.log) :
    params.BoundOnce c' d' := by
  unfold BoundOnce at h ⊢
  rw [hc, hd]
  exact h

/-! ## Passes -/

def Run.signalsRedo (run : Run Signal H Value) (c : Context H) : Bool :=
  match run c with
  | .error (.raised .redo) _ => true
  | _ => false

theorem Run.signalsRedo_iff {run : Run Signal H Value} {c : Context H} :
    run.signalsRedo c = true ↔ run c = .error (.raised .redo) (run.after c) := by
  unfold signalsRedo Run.after
  cases run c with
  | ok value d => simp
  | error exit d =>
      cases exit with
      | raised signal => cases signal <;> simp
      | fault fault => simp
      | exhausted => simp

/-- From the first context on, the run signals `redo` in each of the starts, each time leaving the
next one, and so comes to the last context. -/
inductive Run.Redoes (run : Run Signal H Value) :
    Context H -> List (Context H) -> Context H -> Prop where
  | here {c : Context H} : Redoes run c [] c
  | again {c last : Context H} {starts : List (Context H)} :
      run.signalsRedo c = true -> Redoes run (run.after c) starts last ->
      Redoes run c (c :: starts) last

def Rule.settled (rule : Rule) (run : Run Signal H Value) : Run Signal H Value := fun c =>
  rule.settle Run.exhausted (run c)

theorem Rule.after_settled (rule : Rule) (run : Run Signal H Value) (c : Context H) :
    (rule.settled run).after c = run.after c := by
  cases hrun : run c with
  | ok value d => simp [settled, settle, Run.after, hrun]
  | error exit d =>
      cases exit with
      | raised signal =>
          have hidle : (Run.exhausted : Run Signal H Value) d = .error .exhausted d := rfl
          cases hmeaning : rule d.heap signal <;>
            simp [settled, settle, Run.after, hrun, hmeaning, hidle]
      | fault fault => simp [settled, settle, Run.after, hrun]
      | exhausted => simp [settled, settle, Run.after, hrun]

theorem runCode_logging (eval : Evaluator H) (a : Activation (Logged H)) (c : Context H)
    (log : List (Request H)) :
    a.body eval.logging (c.logged log) =
      (runCode eval a.block.code a.self a.args).logged (c.logged (log ++ [a.turn c])) := by
  unfold Activation.body Activation.turn runCode
  cases a.block.code with
  | body code => rfl
  | callback code data => rfl

theorem passes_redoes {eval : Evaluator H} {a : Activation (Logged H)} {first last : Context H}
    {starts : List (Context H)}
    (hredo : (runCode eval a.block.code a.self a.args).Redoes first starts last)
    (hlast : (runCode eval a.block.code a.self a.args).signalsRedo last = false)
    {limit : Nat} (hlimit : starts.length < limit) (log : List (Request H)) :
    passes (a.body eval.logging) limit (first.logged log) =
      (Rule.block.settled (runCode eval a.block.code a.self a.args)).logged
        (last.logged (log ++ (starts ++ [last]).map a.turn)) := by
  induction hredo generalizing limit log with
  | @here c =>
      obtain ⟨limit, rfl⟩ := Nat.exists_eq_succ_of_ne_zero (Nat.ne_of_gt hlimit)
      rw [passes_succ, runCode_logging]
      unfold Run.logged Rule.settled
      dsimp only [Context.unlogged_logged, Context.log_logged]
      cases hrun : runCode eval a.block.code a.self a.args c with
      | ok value d => rfl
      | error exit d =>
          cases exit with
          | raised signal =>
              cases signal with
              | redo => simp [Run.signalsRedo, hrun] at hlast
              | _ => rfl
          | fault fault => rfl
          | exhausted => rfl
  | @again c last starts hredo _ ih =>
      obtain ⟨limit, rfl⟩ := Nat.exists_eq_succ_of_ne_zero (Nat.ne_of_gt (Nat.zero_lt_of_lt hlimit))
      have hnext := ih hlast (Nat.lt_of_succ_lt_succ hlimit) (log ++ [a.turn c])
      have hturn : a.body eval.logging (c.logged log) = .error (.raised .redo)
          (((runCode eval a.block.code a.self a.args).after c).logged (log ++ [a.turn c])) := by
        rw [runCode_logging]
        exact Run.logged_of_error (Run.signalsRedo_iff.mp hredo)
      rw [passes_succ, hturn]
      rw [List.append_assoc] at hnext
      exact hnext

/-! ## What the log holds before and after the passes -/

theorem Run.after_ensuring (run : Run ε H α) (restore : Run ε H Unit) (c : Context H) :
    (run.ensuring restore).after c = restore.after (run.after c) := by
  unfold Run.after Run.ensuring
  cases run c with
  | ok a d =>
      dsimp only
      cases restore d <;> rfl
  | error exit d =>
      dsimp only
      cases restore d <;> rfl

theorem Run.log_after_noting (run : Run ε H α) (request : Context H -> Request H)
    (c : Context (Logged H)) :
    ((run.noting request).after c).log = c.log ++ [request c.unlogged] := by
  have hafter := run.after_logged (c.unlogged.logged (c.log ++ [request c.unlogged]))
  exact congrArg Context.log hafter

theorem bind_boundOnce {eval : Evaluator H} {pattern : Pattern} {receiver given bound : Value}
    {strict : Bool} {c d : Context (Logged H)}
    (h : (eval.logging.bind pattern receiver given strict >>= fun _ => pure given) c =
      .ok bound d) : (Params.pattern pattern).BoundOnce c d := by
  have hlog := (eval.bind pattern receiver given strict).log_after_noting
    (.bind pattern receiver given strict) c
  cases hrun : eval.logging.bind pattern receiver given strict c with
  | ok _ e =>
      rw [Run.bind_of_ok hrun] at h
      cases h
      refine ⟨receiver, given, strict, c.unlogged, ?_⟩
      rw [← hlog]
      exact congrArg Context.log (Run.after_of_ok hrun).symm
  | error exit e =>
      rw [Run.bind_of_error hrun] at h
      cases h

theorem bindParams_boundOnce {eval : Evaluator H} {params : Params} {receiver value bound : Value}
    {strict : Bool} {c d : Context (Logged H)}
    (h : bindParams eval.logging params receiver value strict c = .ok bound d) :
    params.BoundOnce c d := by
  unfold bindParams at h
  rw [Run.bind_of_ok (Run.get_apply c)] at h
  cases params with
  | empty =>
      dsimp only at h
      cases strict with
      | false =>
          cases h
          exact rfl
      | true =>
          cases hitems : c.heap.items? value with
          | none =>
              rw [hitems] at h
              cases h
              exact rfl
          | some items =>
              rw [hitems] at h
              cases items with
              | nil =>
                  cases h
                  exact rfl
              | cons _ _ => cases h
  | undeclared =>
      cases h
      exact rfl
  | pattern pattern =>
      cases pattern with
      | single name => exact bind_boundOnce h
      | multiple names splat => exact bind_boundOnce h

theorem signalling_recordingBacktrace_ok {run : Run Failure H α} {c d : Context H} {a : α}
    (h : (recordingBacktrace run).signalling c = .ok a d) : run c = .ok a d := by
  unfold Run.signalling recordingBacktrace at h
  cases hrun : run c with
  | ok b e =>
      rw [hrun] at h
      cases h
      rfl
  | error exit e =>
      rw [hrun] at h
      cases exit <;> cases h

theorem prepareArgs_boundOnce {eval : Evaluator H} {block : Block H.Body} {self : Value}
    {value : Option Value} {strict : Bool} {args : List Value} {c d : Context (Logged H)}
    (h : prepareArgs eval.logging block self value strict c = .ok args d) :
    block.params.BoundOnce c d := by
  have hgiven : ∀ given heap, (do
      let bound ← Run.signalling
        (recordingBacktrace (bindParams eval.logging block.params self given strict))
      return (← get).heap.toArgs bound : Run Signal (Logged H) (List Value))
        { c with heap := heap } = .ok args d -> block.params.BoundOnce c d := by
    intro given heap h
    cases hrun : (recordingBacktrace (bindParams eval.logging block.params self given
        strict)).signalling { c with heap := heap } with
    | ok bound e =>
        rw [Run.bind_of_ok hrun] at h
        cases h
        have hbound := bindParams_boundOnce (signalling_recordingBacktrace_ok hrun)
        exact hbound.congr rfl rfl
    | error exit e =>
        rw [Run.bind_of_error hrun] at h
        cases h
  cases value with
  | some value => exact hgiven value c.heap h
  | none => exact hgiven _ _ h

/-- Parameters are bound once on the way to the first pass. -/
theorem beginYield_boundOnce {eval : Evaluator H} {value receiver : Option Value}
    {cls : Option (Ref .module)} {strict : Bool} {c inside : Context (Logged H)}
    {a : Activation (Logged H)}
    (h : beginYield eval.logging value receiver cls strict c = .ok a inside) :
    a.block.params.BoundOnce c inside := by
  rcases beginYield_cases eval.logging value receiver cls strict c with ⟨exit, hno⟩ | ⟨block, hact⟩
  · rw [hno] at h
    cases h
  · rw [beginYield_eq hact] at h
    unfold Run.unwinding at h
    cases hp : prepareArgs eval.logging block (block.receiverFor receiver cls) value strict
        (c.entering block cls) with
    | ok args bound =>
        simp only [hp] at h
        cases h
        have hbound := prepareArgs_boundOnce hp
        exact hbound.congr rfl rfl
    | error exit bound =>
        simp only [hp] at h
        cases hleave : (leaveBlock block c.suspend : Run Signal (Logged H) Unit) bound with
        | ok _ d =>
            simp only [hleave] at h
            cases h
        | error other d =>
            simp only [hleave] at h
            cases h

/-! ## Undoing the activation -/

/-- The stacks that an activation has put something on hold something to take off, or to replace. -/
structure Context.Undoable (c : Context H) : Prop where
  marks : c.marks.live ≠ []
  classes : c.classes.saved.live ≠ []
  frames : c.frames.live ≠ []
  scopes : c.scopes.top? ≠ none

theorem Stack.exists_push {stack : Stack α} (h : stack.live ≠ []) :
    ∃ (rest : Stack α) (entry : α), stack = rest.push entry := by
  obtain ⟨name, live, base⟩ := stack
  cases live with
  | nil => exact absurd rfl h
  | cons entry rest => exact ⟨⟨name, rest, base⟩, entry, rfl⟩

theorem Stack.pop_of_live_nil {stack : Stack α} (h : stack.live = []) :
    stack.pop = .error (.underflow stack.name) := by
  rw [pop, h]

theorem Stack.setTop_of_none {stack : Stack α} (h : stack.top? = none) (entry : α) :
    stack.setTop entry = .error (.underflow stack.name) := by
  obtain ⟨name, live, base⟩ := stack
  cases live with
  | cons _ _ => cases h
  | nil =>
      cases base with
      | cons _ _ => cases h
      | nil => rfl

/-- An activation is undone, or this breaks the stack discipline. -/
theorem Activation.finish_cases (a : Activation H) (d : Context H) :
    (d.Undoable ∧ ∃ e, a.finish d = .ok () e) ∨
      ¬ d.Undoable ∧ ∃ fault e, a.finish d = .error (.fault fault) e := by
  have hpopped : ∀ {marks mark}, d.marks = Stack.push marks mark ->
      a.finish d = leaveBlock a.block a.suspended { d with marks := marks } :=
    fun h => Run.bind_of_ok (popMark_of_push h)
  by_cases hm : d.marks.live = []
  · refine Or.inr ⟨fun h => h.marks hm, .underflow d.marks.name, d, ?_⟩
    simp [finish, popMark, Stack.pop_of_live_nil hm, Run.ofFault]
  obtain ⟨marks, mark, hmarks⟩ := Stack.exists_push hm
  rw [hpopped hmarks]
  by_cases hc : d.classes.saved.live = []
  · refine Or.inr ⟨fun h => h.classes hc, .underflow d.classes.saved.name,
      { d with marks := marks }, ?_⟩
    simp [leaveBlock, popClass, OpenClass.pop, Stack.pop_of_live_nil hc, Run.ofFault]
  obtain ⟨saved, outer, hsaved⟩ := Stack.exists_push hc
  by_cases hf : d.frames.live = []
  · refine Or.inr ⟨fun h => h.frames hf, .underflow d.frames.name,
      { d with
        marks := marks
        classes := ⟨outer, saved⟩
        chain := a.suspended.chain
        blocks := d.blocks.push a.block }, ?_⟩
    simp [leaveBlock, popClass, OpenClass.pop, hsaved, pushBlock, popFrame,
      Stack.pop_of_live_nil hf, Run.ofFault]
  obtain ⟨frames, frame, hframes⟩ := Stack.exists_push hf
  cases hs : d.scopes.top? with
  | none =>
      refine Or.inr ⟨fun h => h.scopes hs, .underflow d.scopes.name,
        { d with
          marks := marks
          classes := ⟨outer, saved⟩
          chain := a.suspended.chain
          blocks := d.blocks.push a.block
          frames := frames
          ns := a.suspended.ns }, ?_⟩
      have hscopes := Stack.setTop_of_none hs a.suspended.scope
      simp [leaveBlock, popClass, OpenClass.pop, hsaved, pushBlock, popFrame, hframes, setTopScope,
        hscopes, Run.ofFault]
  | some scope =>
      have hscopes := Stack.setTop_of_top? hs a.suspended.scope
      refine Or.inl ⟨⟨hm, hc, hf, by simp [hs]⟩,
        { d with
          marks := marks
          classes := ⟨outer, saved⟩
          chain := a.suspended.chain
          blocks := d.blocks.push a.block
          frames := frames
          ns := a.suspended.ns
          scopes := d.scopes.withTop a.suspended.scope }, ?_⟩
      simp [leaveBlock, popClass, OpenClass.pop, hsaved, pushBlock, popFrame, hframes, setTopScope,
        hscopes]

/-! ## Steady passes -/

section Steady

variable {naming : Prop}

theorem Run.Redoes.steady {run : Run Signal H Value} (hrun : run.Keeps (.steady naming))
    {c last : Context H} {starts : List (Context H)} (h : run.Redoes c starts last) :
    ∀ start ∈ starts ++ [last], c.Steady naming start := by
  induction h with
  | here =>
      intro start hm
      rw [List.mem_singleton.mp hm]
      exact .refl _
  | again _ _ ih =>
      intro start hm
      rcases List.mem_cons.mp hm with rfl | hrest
      · exact .refl _
      · exact (hrun _ trivial).after.2.trans (ih start hrest)

theorem Context.Steady.logged {c d : Context H} (h : c.Steady naming d)
    (before after : List (Request H)) : (c.logged before).Steady naming (d.logged after) :=
  ⟨h.frames, h.scopes, h.blocks, h.marks, h.classes, h.ns⟩

theorem Evaluator.logging_bind_steady {eval : Evaluator H}
    (hb : ∀ pattern receiver value strict,
      (eval.bind pattern receiver value strict).Keeps (.steady naming))
    (pattern : Pattern) (receiver value : Value) (strict : Bool) :
    (eval.logging.bind pattern receiver value strict).Keeps (.steady naming) := by
  refine Run.keeps_steady fun c => ?_
  have hbound := (hb pattern receiver value strict c.unlogged trivial).after.2
  have hafter := (eval.bind pattern receiver value strict).after_logged
    (c.unlogged.logged (c.log ++ [.bind pattern receiver value strict c.unlogged]))
  show c.Steady naming (Run.after (Run.logged _) _)
  rw [hafter]
  exact hbound.logged c.log _

end Steady

/-! ## The whole yield -/

theorem Run.ensuring_congr {body other : Run ε H α} {c d : Context H} (h : body c = other d)
    (restore : Run ε H Unit) : body.ensuring restore c = other.ensuring restore d := by
  unfold Run.ensuring
  rw [h]

theorem Run.ensuring_of_error {body : Run ε H α} {restore : Run ε H Unit} {c d : Context H}
    {exit : Exit ε} (h : restore (body.after c) = .error exit d) :
    body.ensuring restore c = .error exit d := by
  unfold Run.ensuring
  cases hb : body c with
  | ok a e =>
      rw [Run.after_of_ok hb] at h
      simp only [h]
  | error other e =>
      rw [Run.after_of_error hb] at h
      simp only [h]

/-- After `redo` a body runs again with the same receiver and arguments, in the context that its
last pass left. The yield ends as the last pass does, if that leaves its stacks fit to be undone.
-/
theorem redo_replays (eval : Evaluator H) (value receiver : Option Value)
    (cls : Option (Ref .module)) (strict : Bool) {c inside : Context (Logged H)}
    {a : Activation (Logged H)}
    (hbegin : beginYield eval.logging value receiver cls strict c = .ok a inside)
    {starts : List (Context H)} {last : Context H}
    (hredo : (runCode eval a.block.code a.self a.args).Redoes inside.unlogged starts last)
    (hlast : (runCode eval a.block.code a.self a.args).signalsRedo last = false)
    (hlimit : starts.length < eval.limit) :
    let body := runCode eval a.block.code a.self a.args
    let log := inside.log ++ (starts ++ [last]).map a.turn
    let ended := (Rule.block.settled body).logged
    let run := yieldBlock eval.logging value receiver cls strict
    -- The parameters are bound once, and there is one pass more than `redo` was signalled.
    a.block.params.BoundOnce c inside ∧ (run.after c).log = log ∧
    ((body.after last).Undoable -> ∃ e, run c = ended.leaving (fun _ => e) (last.logged log)) ∧
    (¬ (body.after last).Undoable -> ∃ fault e, run c = .error (.fault fault) e) ∧
    ∀ naming, body.Nested naming ->
      -- Then all passes begin on the same stacks.
      (∀ start ∈ starts ++ [last], inside.unlogged.Steady naming start) ∧
      ((∀ pattern receiver value strict,
        (eval.bind pattern receiver value strict).Nested naming) ->
        run c = ended.leaving c.resuming (last.logged log)) ∧
      -- What runs are nested: the operations that install nothing, and the default binding.
      (∀ {effects : List Effect} {ε α : Type} {op : Run ε H α}, Operation effects op ->
        (∀ effect ∈ effects, effect ∉ Effect.installing) -> (.naming ∈ effects -> naming) ->
        op.Nested naming) ∧
      ∀ pattern value strict,
        (bindDynamic pattern value strict : Run Failure H Unit).Nested naming := by
  intro body log ended run
  have hpasses : passes (a.body eval.logging) eval.logging.limit inside =
      ended (last.logged log) := passes_redoes hredo hlast hlimit inside.log
  have hrun : run c = ended.ensuring a.finish (last.logged log) := by
    show yieldBlock eval.logging value receiver cls strict c = _
    rw [yieldBlock_eq_begin, Run.bind_of_ok hbegin, Run.ensuring_congr hpasses]
  have hended : ended.after (last.logged log) = (body.after last).logged log := by
    rw [Run.after_logged, Rule.after_settled]
    rfl
  refine ⟨beginYield_boundOnce hbegin, ?_, fun hundo => ?_, fun hundo => ?_, fun naming hbody => ?_⟩
  · have hfinish : a.finish.Steps := Operation.popMark.steps.bind fun _ => leaveBlock_steps _ _
    have hhost := (hfinish.step (ended.after (last.logged log))).host
    have hleft : run.after c = a.finish.after (ended.after (last.logged log)) := by
      rw [← Run.after_ensuring]
      unfold Run.after
      rw [hrun]
    rw [hleft, Context.log, hhost, hended]
    rfl
  · rcases a.finish_cases (ended.after (last.logged log)) with ⟨_, e, he⟩ | ⟨hno, _⟩
    · exact ⟨e, hrun.trans (Run.ensuring_of_restore (fun _ => e) he)⟩
    · rw [hended] at hno
      exact absurd ⟨hundo.marks, hundo.classes, hundo.frames, hundo.scopes⟩ hno
  · rcases a.finish_cases (ended.after (last.logged log)) with ⟨hyes, _⟩ | ⟨_, fault, e, he⟩
    · rw [hended] at hyes
      exact absurd ⟨hyes.marks, hyes.classes, hyes.frames, hyes.scopes⟩ hundo
    · exact ⟨fault, e, hrun.trans (Run.ensuring_of_error he)⟩
  · have hstarts := hredo.steady hbody.keeps
    refine ⟨hstarts, fun hbind => ?_, fun hop hno hnaming => .steady (hop.steady hno hnaming),
      fun pattern value strict => .steady (bindDynamic_steady pattern value strict)⟩
    have hlogged := Evaluator.logging_bind_steady fun pattern receiver value strict =>
      (hbind pattern receiver value strict).keeps
    rcases beginYield_steady hlogged value receiver cls strict c with
      ⟨exit, d, hno, _⟩ | ⟨other, bound, hok, hact, hs, hentered⟩
    · rw [hbegin] at hno
      cases hno
    · rw [hbegin] at hok
      cases hok
      have hlast := hstarts last (List.mem_append_right _ (List.mem_singleton_self last))
      have hpassed := (hlast.trans (hbody.keeps last trivial).after.2).logged inside.log log
      rw [← hended] at hpassed
      have hback := a.finish_eq hact hs cls (hentered.trans hpassed).sameStacks
      exact hrun.trans (Run.ensuring_of_restore c.resuming hback)

/-! ## A body that disturbs its own call -/

abbrev Counting : Host :=
  { Body := Unit, State := Nat }

/-- Count, append to the first array, and overwrite the parameter. -/
def disturb : Run Signal Counting Unit := do
  modify fun c => { c with host := c.host + 1, heap := (c.heap.arrayPush (.array ⟨0⟩) (.int 9)).2 }
  setDynamic "item" .nil

/-- Signal `redo` until the count is 3, and then answer. -/
def redoTwice : Run Signal Counting Value := do
  let c ← get
  if c.host < 3 then Run.raise .redo else return .int 7

def Evaluator.replaying : Evaluator Counting where
  limit := 3
  runBody _ _ _ := do
    disturb
    invoke .nil "again" redoTwice
  runCallback _ _ _ := return .nil
  bind pattern _ value strict := bindDynamic pattern value strict

/-- A started context, in a method that was called with a block of the given parameters. -/
def Context.calledWith {σ : Type} (own : σ) (params : Params) :
    Context { Body := Unit, State := σ } :=
  let c := (Context.new {} .silent own).start 0
  (c.attaching (c.capture params (.body ()) .nil)).invoking .nil "each" .pending

theorem disturb_nested : disturb.Nested False := by
  have hcount : (modify fun c =>
      { c with host := c.host + 1, heap := (c.heap.arrayPush (.array ⟨0⟩) (.int 9)).2 } :
      Run Signal Counting Unit).Keeps (.steady False) :=
    Run.keeps_steady fun c => ⟨rfl, rfl, rfl, rfl, rfl, Or.inl rfl⟩
  exact .andThen (.steady hcount) fun _ => .steady (setDynamic_steady _ _)

theorem redoTwice_nested : redoTwice.Nested False := by
  refine .andThen (.steady .get) fun c => ?_
  split
  · exact .steady (.raise _)
  · exact .steady (.pure _)

theorem replaying_nested (receiver : Value) (args : List Value) :
    (Evaluator.replaying.runBody () receiver args).Nested False := by
  -- A call hands nothing to the evaluator, so that any will do.
  let idle : Evaluator Counting :=
    ⟨0, fun _ _ _ => Run.exhausted, fun _ _ _ => Run.exhausted, fun _ _ _ _ => Run.exhausted⟩
  have hinvoke : ((Layer.invoke .nil "again").around idle redoTwice).Nested False :=
    .around _ (fun _ _ _ => .steady .exhausted) (fun _ _ _ => .steady .exhausted)
      (fun _ _ _ _ => .steady .exhausted) redoTwice_nested
  exact .andThen disturb_nested fun _ => hinvoke

/-- Three passes, each with the two elements that the array had when it was yielded. -/
theorem redo_replays_replaying :
    let c := (Context.calledWith 0 (.pattern (.single "item"))).logged []
    let array := (c.heap.newArray [.int 1, .int 2])
    let run := yieldBlock Evaluator.replaying.logging (some array.1) none none false
    ∃ (a : Activation (Logged Counting)) (inside : Context (Logged Counting))
      (first second last : Context Counting),
      a.args = [.int 1, .int 2] ∧
      (run.after { c with heap := array.2 }).log =
        inside.log ++ [a.turn first, a.turn second, a.turn last] ∧
      (∀ start ∈ [first, second, last], inside.unlogged.Steady False start) ∧
      run.answer? { c with heap := array.2 } = some (.int 7) := by
  intro c array run
  have hbegin : beginYield Evaluator.replaying.logging (some array.1) none none false
      { c with heap := array.2 } = .ok _ _ := rfl
  obtain ⟨_, hlog, _, _, hnested⟩ := redo_replays Evaluator.replaying (some array.1) none none false
    hbegin (.again (by decide +kernel) (.again (by decide +kernel) .here)) (by decide +kernel)
    (by decide)
  exact ⟨_, _, _, _, _, by decide +kernel, hlog, (hnested False (replaying_nested _ _)).1,
    by decide +kernel⟩

/-! ## Bodies that take off what they did not put on -/

/-- The body closes the class that its activation opened, and answers. -/
def Evaluator.closing : Evaluator Bare where
  limit := 1
  runBody _ _ _ := do
    let _ ← popClass
    return .int 1
  runCallback _ _ _ := return .nil
  bind _ _ _ _ := return ()

/-- The body names the module of its frame, and signals `redo` in its first pass. -/
def Evaluator.naming : Evaluator Counting where
  limit := 2
  runBody _ _ _ := do
    modify fun c => { c with host := c.host + 1 }
    setLexicalModule ⟨0⟩
    let c ← get
    if c.host < 2 then Run.raise .redo else return .nil
  runCallback _ _ _ := return .nil
  bind _ _ _ _ := return ()

/-- A method that was called with a block, where neither frames nor the context have a namespace. -/
def Context.unnamed : Context Counting :=
  let started : Context Counting := (Context.new {} .silent (0 : Nat)).start 0
  let c := { started with ns := none }.invoking .nil "outer" .absent
  (c.attaching (c.capture .undeclared (.body ()) .nil)).invoking .nil "each" .pending

def Request.scene : Request H -> Context H
  | .bind _ _ _ _ scene => scene
  | .body _ _ _ scene => scene
  | .callback _ _ _ scene => scene

/-- A body that closes the class opened for it answers 1 in its one pass, and the yield breaks the
stack discipline. A body that names its module begins its second pass in a namespace, and its first
in none. -/
theorem pass_outcome_lost :
    (let c := Context.calledWith () .undeclared
      ∃ a inside, beginYield Evaluator.closing none none none false c = .ok a inside ∧
        (a.body Evaluator.closing).answer? inside = some (.int 1) ∧
        ∃ d, yieldBlock Evaluator.closing none none none false c =
          .error (.fault (.underflow "class")) d) ∧
    (let run := yieldBlock Evaluator.naming.logging none none none false
      let log := (run.after (Context.unnamed.logged [])).log
      log.map (fun request => request.scene.ns.isSome) = [false, true]) :=
  ⟨⟨_, _, rfl, by decide +kernel, _, rfl⟩, by decide +kernel⟩

end ExecutionContext
