import ExecutionContext.Proofs.Binding
import ExecutionContext.Proofs.Composition
import ExecutionContext.Proofs.HeapGrowth

/-! # Cycles of arrays in whole runs

The six operations that run code make arrays of their own: of arguments that are handed to
a callback, and of what a pattern leaves over. All of these hold elements that are in an
array already, so a run closes a cycle only where it pushes, and there exactly when the
array can be reached from what is pushed. As long as it does not, every text, comparison,
catch and report has an end.
-/

namespace ExecutionContext

variable {H : Host} {ε α : Type} {pushing : Prop}

/-! ## Binding and preparing arguments -/

theorem setDynamic_growing {held : List Value} (name : String) (value : Value) :
    (setDynamic name value : Run ε H Unit).Keeps (.growing pushing held) :=
  (Operation.setDynamic name value).growing List.not_mem_nil

/-- The array of what a pattern leaves over has elements of the value that is bound. -/
theorem bindDynamic_growing (pattern : Pattern) (value : Value) (strict : Bool) :
    (bindDynamic pattern value strict : Run Failure H Unit).Keeps (.growing pushing []) := by
  cases pattern with
  | single name => exact setDynamic_growing name value
  | multiple names splat =>
      refine Run.Keeps.relying fun c hclosed =>
        ⟨c.heap.toArgs value, hclosed.toArgs value, ?_⟩
      have hc : (Contract.growing pushing (c.heap.toArgs value)).Holds c :=
        ⟨hclosed, hclosed.toArgs value⟩
      rw [bindDynamic, Run.bind_of_ok (Run.get_apply c)]
      split
      · exact Contract.allows_raised hc _
      · have hnames : (bindNames names (c.heap.toArgs value) : Run Failure H Unit).Keeps
            (.growing pushing (c.heap.toArgs value)) := by
          rw [← bindNamesBy_setDynamic]
          exact bindNamesBy_keeps (fun name _ value => setDynamic_growing name value) _
        refine hnames.bind (fun _ => ?_) c hc
        cases splat with
        | none => exact .pure ()
        | some rest =>
            refine Run.Keeps.bind (newArray_growing _ fun item => List.mem_of_mem_drop) ?_
            exact fun array => setDynamic_growing rest array

section Layers

variable {eval : Evaluator H} {code : Run Signal H Value}

theorem prepareArgs_growing
    (hb : ∀ pattern receiver value strict,
      (eval.bind pattern receiver value strict).Keeps (.growing pushing []))
    (block : Block H.Body) (receiver : Value) (value : Option Value) (strict : Bool) :
    (prepareArgs eval block receiver value strict).Keeps (.growing pushing []) :=
  Run.Keeps.prepareArgs (newArray_growing [] nofun) hb block receiver value strict

/-- The arguments of a block are the elements of a value, or the value itself. -/
theorem prepareArgs_eq_ok {block : Block H.Body} {receiver : Value} {value : Option Value}
    {strict : Bool} {c d : Context H} {args : List Value}
    (h : prepareArgs eval block receiver value strict c = .ok args d) :
    ∃ bound, args = d.heap.toArgs bound := by
  have hspread : ∀ (run : Run Signal H Value) e, (do
      let bound ← run
      return (← get).heap.toArgs bound : Run Signal H (List Value)) e = .ok args d ->
      ∃ bound, args = d.heap.toArgs bound := by
    intro run e hrun
    cases hr : run e with
    | ok bound f =>
        rw [Run.bind_of_ok hr] at hrun
        cases hrun
        exact ⟨bound, rfl⟩
    | error exit f =>
        rw [Run.bind_of_error hr] at hrun
        cases hrun
  cases value with
  | some value => exact hspread _ c h
  | none => exact hspread _ _ h

theorem beginYield_growing
    (hb : ∀ pattern receiver value strict,
      (eval.bind pattern receiver value strict).Keeps (.growing pushing []))
    (value receiver : Option Value) (cls : Option (Ref .module)) (strict : Bool) :
    (beginYield eval value receiver cls strict).Keeps (.growing pushing []) := by
  refine Run.Keeps.get.bind fun c => ?_
  split
  · exact (Run.Looks.signalling (.failWith _)).growing
  · refine Run.Keeps.bind (Run.Tidy.enterBlock cls).growing fun entered => ?_
    refine Run.Keeps.bind (Run.Keeps.unwinding ?_ ?_) fun args => ?_
    · exact prepareArgs_growing hb _ _ value strict
    · exact (Run.Tidy.leaveBlock _ _).growing
    · exact Run.Keeps.bind (Run.Tidy.pushMark _).growing fun _ => .pure _

theorem beginYield_eq_ok {value receiver : Option Value} {cls : Option (Ref .module)}
    {strict : Bool} {c d : Context H} {a : Activation H}
    (h : beginYield eval value receiver cls strict c = .ok a d) :
    ∃ bound, a.args = d.heap.toArgs bound := by
  rcases beginYield_cases eval value receiver cls strict c with ⟨exit, hrefused⟩ | ⟨block, hactive⟩
  · rw [hrefused] at h
    cases h
  · rw [beginYield_eq hactive] at h
    cases hp : prepareArgs eval block (block.receiverFor receiver cls) value strict
        (c.entering block cls) with
    | ok args bound =>
        simp only [Run.unwinding, hp] at h
        cases h
        obtain ⟨spread, hargs⟩ := prepareArgs_eq_ok hp
        exact ⟨spread, hargs⟩
    | error exit bound =>
        simp only [Run.unwinding, hp] at h
        cases hl : (leaveBlock block c.suspend : Run Signal H Unit) bound with
        | ok _ e => simp [hl] at h
        | error other e => simp [hl] at h

/-! ## Layers -/

namespace Layer

theorem opening_growing
    (hb : ∀ pattern receiver value strict,
      (eval.bind pattern receiver value strict).Keeps (.growing pushing [])) (l : Layer H) :
    (l.opening eval).Keeps (.growing pushing []) := by
  have spared : ∀ {α : Type} {run : Run Signal H α}, run.Tidy -> run.Keeps (.growing pushing []) :=
    fun h => h.growing
  have hattach : ∀ block : Block H.Body, (do
      pushMark .pending
      pushBlock block
      return detachBlock : Run Signal H (Run Signal H Unit)).Keeps (.growing pushing []) := by
    intro block
    exact (spared (.pushMark _)).bind fun _ => (spared (.pushBlock block)).bind fun _ => .pure _
  cases l with
  | yield value receiver cls strict =>
      exact (beginYield_growing hb value receiver cls strict).bind fun a => .pure _
  | iterate callback data =>
      exact Run.Keeps.get.bind fun c => (spared (.newBlockWithSelf _ _ _)).bind hattach
  | withBlock block => exact hattach block
  | invoke receiver method =>
      refine Run.Keeps.bind (Run.Looks.signalling .checkDepth).growing fun _ => ?_
      refine (spared .currentMark).bind fun mark => (spared (.pushMark _)).bind fun _ => ?_
      exact Run.Keeps.get.bind fun c => (spared (.openFrame _)).bind fun _ => .pure _
  | openModule module =>
      refine Run.Keeps.bind (Run.Looks.signalling .checkDepth).growing fun _ => ?_
      refine (spared .currentMark).bind fun mark => ?_
      refine Run.Keeps.putting (fun c => { c with levels := (c.innerNamespace module).2 })
        (fun c => .refl c.heap) fun c => ?_
      refine (spared (.openFrame _)).bind fun _ => (spared (.pushScope _)).bind fun _ => ?_
      exact (spared (.pushClass _)).bind fun _ => (spared (.setNamespace _)).bind fun _ => .pure _
  | catchTag tag => exact .pure _

/-- Where a layer has opened, its code grows the heap, with the arguments of a block in hand. -/
theorem codeAt_growing (he : eval.Keeps (.growing pushing []))
    (hcode : code.Keeps (.growing pushing []))
    {l : Layer H} {c inside : Context H} {close : Run Signal H Unit}
    (hopen : l.opening eval c = .ok close inside) (hclosed : inside.heap.Closed) :
    ∃ held, (∀ value ∈ held, inside.heap.Holds value) ∧
      (l.codeAt eval code c).Keeps (.growing pushing held) := by
  cases l with
  | yield value receiver cls strict =>
      cases hbegin : beginYield eval value receiver cls strict c with
      | error exit d =>
          rw [opening, Run.bind_of_error hbegin] at hopen
          cases hopen
      | ok a d =>
          rw [opening, Run.bind_of_ok hbegin] at hopen
          cases hopen
          obtain ⟨bound, hargs⟩ := beginYield_eq_ok hbegin
          refine ⟨a.args, ?_, ?_⟩
          · rw [hargs]
            exact hclosed.toArgs bound
          · simp only [codeAt, hbegin, Activation.body, runCode]
            cases a.block.code with
            | body body => exact (he.body body a.self a.args).holding a.args
            | callback body data =>
                refine Run.Keeps.bind (packArgs_growing a.args) fun packed => ?_
                exact (he.callback body packed data).holding a.args
  | _ => exact ⟨[], fun _ hmem => absurd hmem List.not_mem_nil, hcode⟩

theorem around_growing (he : eval.Keeps (.growing pushing []))
    (hcode : code.Keeps (.growing pushing [])) (l : Layer H) :
    (l.around eval code).Keeps (.growing pushing []) := by
  refine Run.keeps_growing fun c hclosed _ => ?_
  have hopening := opening_growing he.bind l c ⟨hclosed, nofun⟩
  rw [Run.after, around_eq]
  cases hopen : l.opening eval c with
  | error exit d =>
      rw [hopen] at hopening
      rw [Run.bind_of_error hopen]
      exact hopening.1.2
  | ok close inside =>
      rw [hopen] at hopening
      rw [Run.bind_of_ok hopen]
      obtain ⟨held, hheld, hat⟩ := codeAt_growing he hcode hopen hopening.1.1
      have hall := (rounds_keeps hat eval.limit l).ensuring (opening_tidy hopen).growing
      exact hopening.2.trans (hall.evolves hopening.1.1 hheld)

end Layer

end Layers

/-! ## Nested runs -/

namespace Run

/-- The run by code that has these values in hand, as far as it can: only values that were made are
in anyone's hands. -/
def having (values : List Value) (run : Run ε H α) : Run ε H α := fun c =>
  if ∀ value ∈ values, c.heap.Holds value then run c else .error .exhausted c

theorem Keeps.having {values : List Value} {run : Run ε H α}
    (h : run.Keeps (.growing pushing values)) : (run.having values).Keeps (.growing pushing []) := by
  refine keeps_growing fun c hclosed _ => ?_
  unfold Run.having after
  by_cases hheld : ∀ value ∈ values, c.heap.Holds value
  · simp only [if_pos hheld]
    exact h.evolves hclosed hheld
  · simp only [if_neg hheld]
    exact .refl

def editing (edit : Heap.Edit) (answer : Heap -> α) : Run ε H α :=
  Run.having edit.items (modifyGet fun c => (answer c.heap, { c with heap := edit.apply c.heap }))

def pushOnto (target item : Value) : Run ε H Bool :=
  Run.having [target, item] (modifyGet fun c =>
    ((c.heap.arrayPush target item).1, { c with heap := (c.heap.arrayPush target item).2 }))

/-- A run that is nested from the six operations, in sequence and with rescues, where all the rest
makes new arrays at most, changes values through handles, or pushes if pushes are allowed. The code
of blocks and the binding of parameters are nested as well. -/
inductive Grows (pushing : Prop) : {ε α : Type} -> Run ε H α -> Prop where
  | making {ε α : Type} {run : Run ε H α} : run.Keeps (.growing False []) -> run.Grows pushing
  | edit {ε α : Type} (edit : Heap.Edit) (answer : Heap -> α) :
      (Run.editing edit answer : Run ε H α).Grows pushing
  | push {ε : Type} (target item : Value) : pushing ->
      (Run.pushOnto target item : Run ε H Bool).Grows pushing
  | andThen {ε α γ : Type} {run : Run ε H α} {next : α -> Run ε H γ} :
      run.Grows pushing -> (∀ a, (next a).Grows pushing) -> (run >>= next).Grows pushing
  | rescue {ε α : Type} {run : Run ε H α} {handler : Exit ε -> Run ε H α} :
      run.Grows pushing -> (∀ exit, (handler exit).Grows pushing) ->
      (run.recover handler).Grows pushing
  | translating {ε ε' α : Type} {run : Run ε H α} (convert : Context H -> ε -> ε') :
      run.Grows pushing -> (run.translating convert).Grows pushing
  | around {eval : Evaluator H} {code : Run Signal H Value} (l : Layer H) :
      (∀ body receiver args, (eval.runBody body receiver args).Grows pushing) ->
      (∀ body args data, (eval.runCallback body args data).Grows pushing) ->
      (∀ pattern receiver value strict,
        (eval.bind pattern receiver value strict).Grows pushing) ->
      code.Grows pushing -> (l.around eval code).Grows pushing

theorem Grows.keeps {run : Run ε H α} (h : run.Grows pushing) :
    run.Keeps (.growing pushing []) := by
  induction h with
  | making h =>
      exact keeps_growing fun c hclosed _ => .of_extends (h.evolves hclosed nofun).toExtends
  | edit edit answer =>
      refine Keeps.having (keeps_growing fun c _ hheld => .of_extends ?_)
      exact Heap.Edit.extends hheld
  | push target item hpushing =>
      refine Keeps.having (keeps_growing fun c _ hheld => ?_)
      obtain ⟨htarget, hitems⟩ := List.forall_mem_cons.mp hheld
      exact .of_push target hpushing htarget (hitems item (List.mem_singleton_self item))
  | andThen _ _ ihrun ihnext => exact ihrun.bind ihnext
  | rescue _ _ ihrun ihhandler => exact ihrun.recover ihhandler
  | translating convert _ ih => exact ih.translating convert
  | around l _ _ _ _ ihbody ihcallback ihbind ihcode =>
      exact l.around_growing ⟨ihbody, ihcallback, ihbind⟩ ihcode

end Run

/-! ## What ends without cycles -/

/-- A signal becomes a failure unless the tag of a throw has no text. -/
theorem Signal.toFailure?_eq_none_iff (heap : Heap) (signal : Signal) :
    signal.toFailure? heap = none ↔ ∃ tag value, signal = .throwTo tag value ∧ heap.Endless tag := by
  cases signal with
  | throwTo tag value =>
      have hnone := heap.displayed_exactly.none_iff tag
      simp [toFailure?, hnone]
  | _ => simp [toFailure?]

/-- A report is written unless the tag of a throw has no text. -/
theorem report_of_not_endless {c : Context H} {signal : Signal}
    (h : ∀ tag value, signal = .throwTo tag value -> ¬ c.heap.Endless tag) :
    ∃ text, (report signal : Run ε H Unit) c =
      .ok () { c with errors := c.errors.println text } := by
  have htext : ∃ text, signal.report? c.heap = some text := by
    have hfailure : ∃ failure, signal.toFailure? c.heap = some failure := by
      rw [← Option.ne_none_iff_exists', Ne, Signal.toFailure?_eq_none_iff]
      rintro ⟨tag, value, hsignal, hendless⟩
      exact h tag value hsignal hendless
    obtain ⟨failure, hfailure⟩ := hfailure
    cases signal with
    | breakWith value => exact ⟨_, rfl⟩
    | returnWith value => exact ⟨_, rfl⟩
    | _ => exact ⟨failure.report, by simp [Signal.report?, hfailure]⟩
  obtain ⟨text, htext⟩ := htext
  refine ⟨text, ?_⟩
  simp only [report, Run.bind_of_ok (Run.get_apply c), htext]
  rfl

theorem exists_equal {heap : Heap} {a : Value} (h : ¬ heap.Endless a) (b : Value) :
    ∃ answer, heap.equal? a b = some answer ∧
      ∀ depth, heap.nestingDepth ≤ depth -> heap.equalWithin depth a b = some answer := by
  obtain ⟨answer, hanswer⟩ := Heap.exists_compared h true b
  refine ⟨answer, ?_, fun depth hle => ?_⟩
  · rw [Heap.equal?, Heap.equalWithin_eq]
    exact hanswer _ heap.nestingDepth_le_comparisonDepth
  · rw [Heap.equalWithin_eq]
    exact hanswer depth hle

/-- A catch decides of every throw whether it takes it, unless the tag thrown has no end. -/
theorem catchTag_of_not_endless {body : Run Signal H Value} {c d : Context H} {thrown value : Value}
    (hbody : body c = .error (.raised (.throwTo thrown value)) d) (h : ¬ d.heap.Endless thrown)
    (tag : Value) :
    (d.heap.equal? thrown tag = some true ∧ catchTag tag body c = .ok value d) ∨
    (d.heap.equal? thrown tag = some false ∧ catchTag tag body c = body c) := by
  obtain ⟨answer, hanswer, _⟩ := exists_equal h tag
  cases answer with
  | true => exact Or.inl ⟨hanswer, by simp only [catchTag, hbody, hanswer]⟩
  | false => exact Or.inr ⟨hanswer, by simp only [catchTag, hbody, hanswer]⟩

/-- Without cycles a catch takes the throw of an equal tag, and lets everything else pass. -/
theorem catchTag_of_acyclic (tag : Value) (body : Run Signal H Value) (c : Context H)
    (h : (body.after c).heap.Acyclic) :
    catchTag tag body c = body c ∨
    ∃ thrown value, body c = .error (.raised (.throwTo thrown value)) (body.after c) ∧
      (body.after c).heap.equal? thrown tag = some true ∧
      catchTag tag body c = .ok value (body.after c) := by
  cases hbody : body c with
  | ok value d => exact Or.inl (by simp only [catchTag, hbody])
  | error exit d =>
      rw [Run.after_of_error hbody] at h ⊢
      cases exit with
      | fault fault => exact Or.inl (by simp only [catchTag, hbody])
      | exhausted => exact Or.inl (by simp only [catchTag, hbody])
      | raised signal =>
          cases signal with
          | throwTo thrown value =>
              rcases catchTag_of_not_endless hbody (h.not_endless thrown) tag with
                ⟨hequal, hcaught⟩ | ⟨_, hpassed⟩
              · exact Or.inr ⟨thrown, value, rfl, hequal, hcaught⟩
              · exact Or.inl (hpassed.trans hbody)
          | _ => exact Or.inl (by simp only [catchTag, hbody])

/-! ## The main result -/

/-- Only a push closes a cycle, and without cycles every text and every comparison ends. -/
theorem only_pushes_close_cycles :
    -- What makes new arrays at most, which are never cyclic: all operations but a change of values
    -- through a handle, the edits that such a change may be, and the binding of parameters. The six
    -- operations that run code do no more than the code does.
    (∀ {effects : List Effect} {ε α : Type} {run : Run ε H α}, Operation effects run ->
      .values ∉ effects -> run.Keeps (.growing False [])) ∧
    (∀ {effects : List Effect} {ε α : Type} {run : Run ε H α}, Operation effects run ->
      .values ∈ effects ->
        ∃ change : Heap -> Heap, ∀ c, run.after c = { c with heap := change c.heap }) ∧
    (∀ (heap : Heap) (edit : Heap.Edit), (∀ item ∈ edit.items, heap.Holds item) ->
      heap.Evolves False (edit.apply heap)) ∧
    (∀ pattern value strict,
      (bindDynamic pattern value strict : Run Failure H Unit).Keeps (.growing False [])) ∧
    (∀ {pushing : Prop} {eval : Evaluator H} {code : Run Signal H Value},
      eval.Keeps (.growing pushing []) -> code.Keeps (.growing pushing []) ->
      ∀ l : Layer H, (l.around eval code).Keeps (.growing pushing [])) ∧
    -- What this comes to in whole runs: a push closes a cycle exactly when the array can be reached
    -- from what is pushed.
    (∀ config errors host, (Context.new config errors host : Context H).heap.Closed ∧
      (Context.new config errors host : Context H).heap.Acyclic) ∧
    (∀ {pushing : Prop} {ε α : Type} {run : Run ε H α}, run.Grows pushing ->
      ∀ c : Context H, c.heap.Closed -> c.heap.Evolves pushing (run.after c).heap) ∧
    (∀ {before after : Heap}, before.Closed -> before.Evolves False after ->
      after.Closed ∧ ∀ v, after.Cyclic v ↔ before.Cyclic v) ∧
    (∀ {before after : Heap}, before.Closed -> before.Evolves True after ->
      after.Closed ∧ (before.Acyclic -> ¬ after.Acyclic ->
        ∃ mid ref item, before.Evolves True mid ∧ mid.Acyclic ∧ mid.arrays.Has ref ∧
          mid.Reaches item (.array ref) ∧ (mid.pushed ref item).Evolves True after)) ∧
    (∀ (heap : Heap) ref item, heap.arrays.Has ref -> heap.Acyclic ->
      ((∃ v, (heap.arrayPush (.array ref) item).2.Cyclic v) ↔ heap.Reaches item (.array ref))) ∧
    -- A text ends exactly when no cyclic array can be reached from the value.
    (∀ heap : Heap, heap.WritesExactly heap.displayWithin heap.display? ∧
      heap.WritesExactly heap.inspectWithin heap.inspect?) ∧
    (∀ (heap : Heap), heap.Acyclic -> ∀ a b, ∃ answer, heap.equal? a b = some answer ∧
      ∀ depth, heap.nestingDepth ≤ depth -> heap.equalWithin depth a b = some answer) ∧
    (∀ (heap : Heap) (signal : Signal), signal.toFailure? heap = none ↔
      ∃ tag value, signal = .throwTo tag value ∧ heap.Endless tag) ∧
    (∀ c : Context H, c.heap.Acyclic -> ∀ signal, ∃ text,
      (report signal : Run ε H Unit) c = .ok () { c with errors := c.errors.println text }) ∧
    ∀ (tag : Value) (body : Run Signal H Value) (c : Context H), (body.after c).heap.Acyclic ->
      catchTag tag body c = body c ∨
      ∃ thrown value, body c = .error (.raised (.throwTo thrown value)) (body.after c) ∧
        (body.after c).heap.equal? thrown tag = some true ∧
        catchTag tag body c = .ok value (body.after c) := by
  refine ⟨Operation.growing, Operation.after_of_values,
    fun _ _ h => .of_extends (Heap.Edit.extends h), bindDynamic_growing, Layer.around_growing,
    fun _ _ _ => ⟨Heap.closed_empty, Heap.acyclic_empty⟩,
    fun h c hclosed => h.keeps.evolves hclosed nofun,
    fun hclosed h => ⟨h.closed hclosed, fun v => h.toExtends.cyclic_iff hclosed⟩,
    fun hclosed h => ⟨h.closed hclosed, h.exists_push hclosed⟩,
    fun heap ref item hhas hacyclic => ?_,
    fun heap => ⟨heap.displayed_exactly, heap.inspected_exactly⟩,
    fun heap h a b => exists_equal (h.not_endless a) b, Signal.toFailure?_eq_none_iff,
    fun c h signal => report_of_not_endless fun tag _ _ => h.not_endless tag,
    catchTag_of_acyclic⟩
  rw [← Heap.pushed, Heap.cyclic_pushed_iff hhas]
  exact ⟨fun h => h.resolve_left fun ⟨v, hv⟩ => hacyclic v hv, Or.inr⟩

/-- An array in an array, and then the outer one pushed onto the inner one. -/
def closing : Run Failure Bare Bool := do
  let inner ← Run.editing (.newArray [.int 1]) fun heap => (heap.newArray [.int 1]).1
  let outer ← Run.editing (.newArray [inner]) fun heap => (heap.newArray [inner]).1
  Run.pushOnto inner outer

theorem closing_grows : closing.Grows True :=
  .andThen (.edit _ _) fun _ => .andThen (.edit _ _) fun _ => .push _ _ trivial

/-- The heap of that run before the push. -/
def nestedArrays : Heap :=
  ((({} : Heap).newArray [.int 1]).2.newArray [.array ⟨0⟩]).2

theorem nestedArrays_not_reaches : ¬ nestedArrays.Reaches (.array ⟨0⟩) (.array ⟨1⟩) := by
  intro h
  rcases h.cases_head with heq | ⟨item, hcontains, hrest⟩
  · cases heq
  · have hitem : item = .int 1 := List.mem_singleton.mp (Heap.contains_array_iff.mp hcontains)
    rw [hitem] at hrest
    rcases hrest.cases_head with heq | ⟨_, hinside, _⟩
    · cases heq
    · obtain ⟨_, hint⟩ := hinside.exists_ref
      cases hint

/-- Two nested arrays are written out, the inner one can be pushed onto the outer one, and the other
way round is the push that closes the cycle of the run. -/
theorem only_pushes_close_cycles_nested :
    let initial : Context Bare := .new {} .silent ()
    ({} : Heap).Evolves False nestedArrays ∧ nestedArrays.Acyclic ∧
    nestedArrays.display? (.array ⟨1⟩) = some "[[1]]" ∧
    ¬ nestedArrays.Endless (.array ⟨1⟩) ∧
    (¬ ∃ v, (nestedArrays.arrayPush (.array ⟨1⟩) (.array ⟨0⟩)).2.Cyclic v) ∧
    (closing.after initial).heap = nestedArrays.pushed ⟨0⟩ (.array ⟨1⟩) ∧
    ¬ (closing.after initial).heap.Acyclic ∧
    ∃ (mid : Heap) (ref : Ref .array) (item : Value), mid.Acyclic ∧
      mid.Reaches item (.array ref) ∧
      (mid.pushed ref item).Evolves True (closing.after initial).heap := by
  intro initial
  obtain ⟨_, _, hedits, _, _, hstart, hruns, hmaking, hpushing, hpush, hwritten, _⟩ :=
    only_pushes_close_cycles (H := Bare) (ε := Failure)
  have hfirst := hedits {} (.newArray [.int 1]) (by decide)
  have hsecond := hedits (({} : Heap).newArray [.int 1]).2 (.newArray [.array ⟨0⟩]) (by decide)
  have hmade : ({} : Heap).Evolves False nestedArrays := hfirst.trans hsecond
  have hacyclic : nestedArrays.Acyclic := fun v hv =>
    Heap.acyclic_empty v ((hmaking Heap.closed_empty hmade).2 v |>.mp hv)
  have htext : nestedArrays.display? (.array ⟨1⟩) = some "[[1]]" := by decide +kernel
  have hend : ¬ nestedArrays.Endless (.array ⟨1⟩) := by
    rw [← (hwritten nestedArrays).1.none_iff, htext]
    exact nofun
  have hafter : (closing.after initial).heap = nestedArrays.pushed ⟨0⟩ (.array ⟨1⟩) := rfl
  have hclosed : ¬ (closing.after initial).heap.Acyclic := by
    have hinside : nestedArrays.Reaches (.array ⟨1⟩) (.array ⟨0⟩) :=
      .single (Heap.contains_array_iff.mpr (by decide))
    obtain ⟨v, hv⟩ := (hpush nestedArrays ⟨0⟩ (.array ⟨1⟩) Nat.zero_lt_two hacyclic).mpr hinside
    rw [hafter]
    exact fun h => h v hv
  obtain ⟨hfresh, hnone⟩ := hstart {} .silent ()
  have hevolves := hruns closing_grows initial hfresh
  obtain ⟨mid, ref, item, _, hmid, _, hreach, hrest⟩ := (hpushing hfresh hevolves).2 hnone hclosed
  refine ⟨hmade, hacyclic, htext, hend, ?_, hafter, hclosed, mid, ref, item, hmid, hreach, hrest⟩
  rw [hpush nestedArrays ⟨1⟩ (.array ⟨0⟩) Nat.one_lt_two hacyclic]
  exact nestedArrays_not_reaches

end ExecutionContext
