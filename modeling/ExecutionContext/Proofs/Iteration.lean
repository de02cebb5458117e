import ExecutionContext.Proofs.Redo

/-! # What an iteration hands to its callback

The block of an iteration declares no parameters and forwards to a callback. A value that is
yielded to it is packed three times on the way: strictly, an array of one element counts as that
element; what is left is spread into arguments; and the arguments are packed again for each pass.
The first and the last packing are not inverse to the second, so that an array reaches the callback
as a copy, and one of a single element not at all.
-/

namespace ExecutionContext

variable {H : Host} {ε : Type}

/-! ## What reaches the callback -/

namespace Heap

/-- What a yielded value counts as: strictly, an array of one element counts as that element, and
anything else as itself. -/
inductive CountsAs (heap : Heap) : Value -> Bool -> Value -> Prop where
  | element {value only : Value} : heap.items? value = some [only] -> CountsAs heap value true only
  | itself {value : Value} {strict : Bool} :
      (strict = true -> ∀ only, heap.items? value ≠ some [only]) -> CountsAs heap value strict value

/-- What a callback gets for a value that was yielded on the heap `site`, when its pass begins on
the heap `start`, and the heap that the callback finds then: the only element of an array, a new
array with the elements of any other, and anything else itself. -/
inductive HandsOver (site start : Heap) (value : Value) : Heap -> Value -> Prop where
  | element {only : Value} : site.items? value = some [only] -> HandsOver site start value start only
  | copy {items : List Value} {ref : Ref .array} {scene : Heap} :
      site.items? value = some items -> items.length ≠ 1 ->
      ¬ start.arrays.Has ref -> scene.arrays.Has ref -> scene.items? (.array ref) = some items ->
      (∀ other, start.arrays.Has other -> scene.arrays.Has other ∧
        scene.arrays.read other = start.arrays.read other) ->
      HandsOver site start value scene (.array ref)
  | itself : site.items? value = none -> HandsOver site start value start value

/-- What a yield gives to its block, and the heap then: without a value, a new empty array. -/
def yielded (heap : Heap) : Option Value -> Value × Heap
  | some value => (value, heap)
  | none => heap.newArray []

theorem items?_yielded_none (heap : Heap) :
    (heap.yielded none).2.items? (heap.yielded none).1 = some [] :=
  heap.items?_newArray []

theorem countsAs_collapse (heap : Heap) (value : Value) (strict : Bool) :
    heap.CountsAs value strict (heap.collapse value strict) := by
  by_cases hone : ∃ only, heap.items? value = some [only]
  · obtain ⟨only, hitems⟩ := hone
    cases strict with
    | true =>
        have hcollapse : heap.collapse value true = only := by simp [collapse, hitems]
        rw [hcollapse]
        exact .element hitems
    | false => exact .itself fun hstrict => by cases hstrict
  · have hother : ∀ only, heap.items? value ≠ some [only] := fun only h => hone ⟨only, h⟩
    have hcollapse : heap.collapse value strict = value := by
      unfold collapse
      split
      · exact absurd ‹_› (hother _)
      · rfl
    rw [hcollapse]
    exact .itself fun _ => hother

/-- Except for arrays of one element, a value counts as itself. -/
theorem CountsAs.eq_of_not_single {heap : Heap} {value counted : Value} {strict : Bool}
    (h : heap.CountsAs value strict counted)
    (hother : ∀ only, heap.items? value ≠ some [only]) : counted = value := by
  cases h with
  | element hitems => exact absurd hitems (hother counted)
  | itself _ => rfl

/-- Packing what a value was spread into hands the value over. -/
theorem fromArgs_handsOver (site start : Heap) (value : Value) :
    site.HandsOver start value (start.fromArgs (site.toArgs value)).2
      (start.fromArgs (site.toArgs value)).1 := by
  cases hitems : site.items? value with
  | none =>
      have hargs : site.toArgs value = [value] := by simp [toArgs, hitems]
      rw [hargs]
      exact .itself hitems
  | some items =>
      have hargs : site.toArgs value = items := by simp [toArgs, hitems]
      rw [hargs]
      by_cases hone : items.length = 1
      · obtain ⟨only, rfl⟩ := List.length_eq_one_iff.mp hone
        exact .element hitems
      · have hnew : start.fromArgs items = start.newArray items := by
          unfold fromArgs
          split
          · exact absurd rfl hone
          · rfl
        rw [hnew]
        refine .copy hitems hone (start.arrays.not_has_alloc items) (start.arrays.has_alloc items)
          (start.items?_newArray items) fun other hother => ?_
        exact ⟨hother.alloc items, Arena.read_alloc_of_has hother items⟩

/-- A value that is no array of one element is handed over as it is, or as a new array with the
same elements. -/
theorem HandsOver.self_or_copy {site start scene : Heap} {value packed : Value}
    (h : site.HandsOver start value scene packed)
    (hother : ∀ only, site.items? value ≠ some [only]) :
    site.items? value = none ∧ packed = value ∨
      ∃ ref, packed = .array ref ∧ ¬ start.arrays.Has ref ∧
        scene.items? packed = site.items? value := by
  cases h with
  | element hitems => exact absurd hitems (hother packed)
  | copy hitems _ hfresh _ hcopy _ => exact Or.inr ⟨_, rfl, hfresh, hcopy.trans hitems.symm⟩
  | itself hitems => exact Or.inl ⟨hitems, rfl⟩

/-- The same for a value as it was given, before a strict yield looks into it: what is handed over
is the value, or has the elements of the value. -/
theorem HandsOver.self_or_elements {site start scene : Heap} {given counted packed : Value}
    {strict : Bool} (hcounted : site.CountsAs given strict counted)
    (h : site.HandsOver start counted scene packed)
    (hother : ∀ only, site.items? given ≠ some [only]) :
    site.items? given = none ∧ packed = given ∨ scene.items? packed = site.items? given := by
  rw [hcounted.eq_of_not_single hother] at h
  rcases h.self_or_copy hother with hself | ⟨_, _, _, hcopy⟩
  · exact Or.inl hself
  · exact Or.inr hcopy

theorem HandsOver.has {site start scene : Heap} {value packed : Value} {ref : Ref .array}
    (h : site.HandsOver start value scene packed) (href : start.arrays.Has ref) :
    scene.arrays.Has ref := by
  cases h with
  | element _ => exact href
  | copy _ _ _ _ _ hkept => exact (hkept ref href).1
  | itself _ => exact href

/-- An array is not handed over itself, unless it is its own only element. -/
theorem HandsOver.ne_own {site start scene : Heap} {own : Ref .array} {packed : Value}
    (h : site.HandsOver start (.array own) scene packed) (hown : start.arrays.Has own)
    (hloop : site.items? (.array own) ≠ some [.array own]) : packed ≠ .array own := by
  intro heq
  cases h with
  | element hitems =>
      rw [heq] at hitems
      exact hloop hitems
  | copy _ _ hfresh _ _ _ =>
      cases heq
      exact hfresh hown
  | itself hitems => cases hitems

end Heap

/-! ## Passes that forward -/

/-- The requests of passes that hand a value over to a callback, with its datum: the first pass
begins in the context, and each other one in what the callback left in the pass before it. -/
inductive Evaluator.Forwards (eval : Evaluator H) (callback : H.Body) (data : Value) (site : Heap)
    (value : Value) : Context H -> List (Request H) -> Prop where
  | none (start : Context H) : Forwards eval callback data site value start []
  | pass {start scene : Context H} {packed : Value} {requests : List (Request H)} :
      site.HandsOver start.heap value scene.heap packed ->
      scene = { start with heap := scene.heap } ->
      Forwards eval callback data site value ((eval.runCallback callback packed data).after scene)
        requests ->
      Forwards eval callback data site value start
        (.callback callback packed data scene :: requests)

theorem Evaluator.Forwards.handsOver {eval : Evaluator H} {callback : H.Body} {data value : Value}
    {site : Heap} {first : Context H} {requests : List (Request H)}
    (h : eval.Forwards callback data site value first requests) :
    ∀ request ∈ requests, ∃ (start scene : Context H) (packed : Value),
      request = .callback callback packed data scene ∧
        site.HandsOver start.heap value scene.heap packed := by
  induction h with
  | none _ => simp
  | @pass start scene packed _ hpass _ _ ih =>
      intro request hrequest
      rcases List.mem_cons.mp hrequest with rfl | hrest
      · exact ⟨start, scene, packed, rfl, hpass⟩
      · exact ih request hrest

/-- Where callbacks take no array away, no pass gets an array that stood before the first one and
was yielded, unless that is its own only element. -/
theorem Evaluator.Forwards.ne_own {eval : Evaluator H} {callback : H.Body} {data : Value}
    {own : Ref .array} {site : Heap} {first : Context H} {requests : List (Request H)}
    (h : eval.Forwards callback data site (.array own) first requests)
    (hgrow : ∀ packed scene ref, scene.heap.arrays.Has ref ->
      ((eval.runCallback callback packed data).after scene).heap.arrays.Has ref)
    (hown : first.heap.arrays.Has own)
    (hloop : site.items? (.array own) ≠ some [.array own]) :
    ∀ packed scene, .callback callback packed data scene ∈ requests -> packed ≠ .array own := by
  induction h with
  | none _ => simp
  | @pass start here packed _ hpass _ _ ih =>
      intro other scene hmem
      rcases List.mem_cons.mp hmem with hsame | hrest
      · cases hsame
        exact hpass.ne_own hown hloop
      · exact ih (hgrow packed here own (hpass.has hown)) other scene hrest

/-- A pass that signals `redo` is noted, and the next one begins in the context that it left. -/
theorem after_passes_redo {eval : Evaluator H} {a : Activation (Logged H)} {start : Context H}
    (hredo : (runCode eval a.block.code a.self a.args).signalsRedo start = true) (limit : Nat)
    (log : List (Request H)) :
    (passes (a.body eval.logging) (limit + 1)).after (start.logged log) =
      (passes (a.body eval.logging) limit).after
        (((runCode eval a.block.code a.self a.args).after start).logged
          (log ++ [a.turn start])) := by
  have hturn : a.body eval.logging (start.logged log) = .error (.raised .redo)
      (((runCode eval a.block.code a.self a.args).after start).logged (log ++ [a.turn start])) := by
    rw [runCode_logging]
    exact Run.logged_of_error (Run.signalsRedo_iff.mp hredo)
  have hnext : passes (a.body eval.logging) (limit + 1) (start.logged log) =
      passes (a.body eval.logging) limit
        (((runCode eval a.block.code a.self a.args).after start).logged
          (log ++ [a.turn start])) := by
    rw [passes_succ, hturn]
    rfl
  rw [Run.after, hnext]
  rfl

theorem after_passes_last {eval : Evaluator H} {a : Activation (Logged H)} {start : Context H}
    (hlast : (runCode eval a.block.code a.self a.args).signalsRedo start = false) (limit : Nat)
    (log : List (Request H)) :
    (passes (a.body eval.logging) (limit + 1)).after (start.logged log) =
      ((runCode eval a.block.code a.self a.args).after start).logged (log ++ [a.turn start]) := by
  have hpasses := passes_redoes .here hlast (Nat.succ_pos limit) log
  have hsettled := (Rule.block.settled (runCode eval a.block.code a.self a.args)).after_logged
    (start.logged (log ++ [a.turn start]))
  rw [Rule.after_settled] at hsettled
  unfold Run.after at hsettled ⊢
  rw [hpasses]
  exact hsettled

/-- The passes of a block that forwards are requests that hand the value over. -/
theorem passes_forwards {eval : Evaluator H} {a : Activation (Logged H)} {callback : H.Body}
    {data value : Value} {site : Heap} (hcode : a.block.code = .callback callback data)
    (hargs : a.args = site.toArgs value) (limit : Nat) (start : Context H)
    (log : List (Request H)) :
    ∃ requests, ((passes (a.body eval.logging) limit).after (start.logged log)).log =
        log ++ requests ∧
      eval.Forwards callback data site value start requests ∧
      (limit ≠ 0 -> requests.head? = some (a.turn start)) := by
  induction limit generalizing start log with
  | zero => exact ⟨[], (List.append_nil log).symm, .none start, fun h => absurd rfl h⟩
  | succ limit ih =>
      have hturn : a.turn start = .callback callback (start.heap.fromArgs a.args).1 data
          { start with heap := (start.heap.fromArgs a.args).2 } := by
        unfold Activation.turn
        rw [hcode]
      have hpass : site.HandsOver start.heap value (start.heap.fromArgs a.args).2
          (start.heap.fromArgs a.args).1 := by
        rw [hargs]
        exact site.fromArgs_handsOver start.heap value
      have hleft : (eval.runCallback callback (start.heap.fromArgs a.args).1 data).after
          { start with heap := (start.heap.fromArgs a.args).2 } =
            (runCode eval a.block.code a.self a.args).after start := by
        rw [hcode]
        rfl
      by_cases hredo : (runCode eval a.block.code a.self a.args).signalsRedo start = true
      · obtain ⟨requests, hlog, hforwards, _⟩ :=
          ih ((runCode eval a.block.code a.self a.args).after start) (log ++ [a.turn start])
        refine ⟨a.turn start :: requests, ?_, ?_, fun _ => rfl⟩
        · rw [after_passes_redo hredo, hlog]
          simp
        · rw [← hleft] at hforwards
          rw [hturn]
          exact .pass hpass rfl hforwards
      · have hlast := Bool.eq_false_iff.mpr hredo
        refine ⟨[a.turn start], ?_, ?_, fun _ => rfl⟩
        · rw [after_passes_last hlast]
          rfl
        · rw [hturn]
          exact .pass hpass rfl (.none _)

/-! ## Yields to a block that forwards -/

/-- Without a parameter list nothing is bound, and a yield reaches the passes. -/
theorem beginYield_of_undeclared {d : Context H} {block : Block H.Body} (hact : d.Activates block)
    (hparams : block.params = .undeclared) (eval : Evaluator H) (value receiver : Option Value)
    (cls : Option (Ref .module)) (strict : Bool) :
    let site := (d.heap.yielded value).2
    beginYield eval value receiver cls strict d = .ok
      { block := block
        suspended := d.suspend
        self := block.receiverFor receiver cls
        args := site.toArgs (site.collapse (d.heap.yielded value).1 strict) }
      { d.entering block cls with
        heap := site
        marks := (d.entering block cls).marks.push block.mark } := by
  intro site
  have hprepare : prepareArgs eval block (block.receiverFor receiver cls) value strict
      (d.entering block cls) =
        .ok (site.toArgs (site.collapse (d.heap.yielded value).1 strict))
          { d.entering block cls with heap := site } := by
    unfold prepareArgs bindParams
    rw [hparams]
    cases value <;> rfl
  rw [beginYield_eq hact]
  unfold Run.unwinding
  rw [hprepare]

/-- A yield that begins asks the evaluator for what its passes ask for. -/
theorem log_after_yieldBlock {eval : Evaluator (Logged H)} {value receiver : Option Value}
    {cls : Option (Ref .module)} {strict : Bool} {d inside : Context (Logged H)}
    {a : Activation (Logged H)}
    (hbegin : beginYield eval value receiver cls strict d = .ok a inside) :
    ((yieldBlock eval value receiver cls strict).after d).log =
      ((passes (a.body eval) eval.limit).after inside).log := by
  have hfinish : a.finish.Steps := Operation.popMark.steps.bind fun _ => leaveBlock_steps _ _
  have hhost := (hfinish.step ((passes (a.body eval) eval.limit).after inside)).host
  have hrun : (yieldBlock eval value receiver cls strict).after d =
      a.finish.after ((passes (a.body eval) eval.limit).after inside) := by
    rw [← Run.after_ensuring, yieldBlock_eq_begin]
    unfold Run.after
    rw [Run.bind_of_ok hbegin]
  rw [hrun, Context.log, hhost]
  rfl

/-- What a yield to a block without parameters that forwards asks the evaluator for. -/
theorem yieldBlock_forwards {d : Context (Logged H)} {block : Block H.Body} {callback : H.Body}
    {data : Value} (hact : d.Activates block) (hparams : block.params = .undeclared)
    (hcode : block.code = .callback callback data) (eval : Evaluator H)
    (value receiver : Option Value) (cls : Option (Ref .module)) (strict : Bool) :
    let site := (d.heap.yielded value).2
    let counted := site.collapse (d.heap.yielded value).1 strict
    ∃ start requests, start.heap = site ∧
      ((yieldBlock eval.logging value receiver cls strict).after d).log = d.log ++ requests ∧
      eval.Forwards callback data site counted start requests ∧
      (eval.limit ≠ 0 -> requests.head? = some (.callback callback
        (site.fromArgs (site.toArgs counted)).1 data
        { start with heap := (site.fromArgs (site.toArgs counted)).2 })) := by
  intro site counted
  let start : Context H :=
    { (d.entering block cls).unlogged with
      heap := site
      marks := (d.entering block cls).marks.push block.mark }
  have hbegin := beginYield_of_undeclared hact hparams eval.logging value receiver cls strict
  obtain ⟨requests, hlog, hforwards, hfirst⟩ := passes_forwards
    (a := { block := block
            suspended := d.suspend
            self := block.receiverFor receiver cls
            args := site.toArgs counted })
    hcode rfl eval.limit start d.log
  refine ⟨start, requests, rfl, ?_, hforwards, fun hlimit => ?_⟩
  · rw [log_after_yieldBlock hbegin]
    exact hlog
  · rw [hfirst hlimit, Activation.turn]
    dsimp only
    rw [hcode]

/-! ## Attempts that are made again -/

def Run.signalsRetry (run : Run Signal H Value) (c : Context H) : Bool :=
  match run c with
  | .error (.raised .retry) _ => true
  | _ => false

theorem Run.signalsRetry_iff {run : Run Signal H Value} {c : Context H} :
    run.signalsRetry c = true ↔ run c = .error (.raised .retry) (run.after c) := by
  unfold signalsRetry Run.after
  cases run c with
  | ok value d => simp
  | error exit d =>
      cases exit with
      | raised signal => cases signal <;> simp
      | fault fault => simp
      | exhausted => simp

/-- From the first context on, the run signals `retry` in each of the starts, each time leaving the
next one, and so comes to the last context, where it does not. -/
inductive Run.Retries (run : Run Signal H Value) :
    Context H -> List (Context H) -> Context H -> Prop where
  | here {c : Context H} : run.signalsRetry c = false -> Retries run c [] c
  | again {c last : Context H} {starts : List (Context H)} :
      run.signalsRetry c = true -> Retries run (run.after c) starts last ->
      Retries run c (c :: starts) last

/-- The attempts of a driver that signals `retry` in each of the starts: the last one decides. -/
theorem attempts_retries {driver : Run Signal H Value} {first last : Context H}
    {starts : List (Context H)} (h : driver.Retries first starts last) {limit : Nat}
    (hlimit : starts.length < limit) :
    attempts finishIteration driver limit first = Rule.iteration.settled driver last := by
  induction h generalizing limit with
  | @here c hlast =>
      obtain ⟨limit, rfl⟩ := Nat.exists_eq_succ_of_ne_zero (Nat.ne_of_gt hlimit)
      rw [attempts_succ_iteration, Rule.settled]
      cases hrun : driver c with
      | ok value d => rfl
      | error exit d =>
          cases exit with
          | raised signal =>
              cases signal with
              | retry => simp [Run.signalsRetry, hrun] at hlast
              | _ => rfl
          | fault fault => rfl
          | exhausted => rfl
  | @again c last starts hretry _ ih =>
      obtain ⟨limit, rfl⟩ := Nat.exists_eq_succ_of_ne_zero (Nat.ne_of_gt (Nat.zero_lt_of_lt hlimit))
      have hnext := ih (Nat.lt_of_succ_lt_succ hlimit)
      rw [attempts_succ_iteration, Run.signalsRetry_iff.mp hretry]
      exact hnext

/-- A steady driver begins every attempt on the same stacks. -/
theorem Run.Retries.steady {naming : Prop} {driver : Run Signal H Value}
    (hdriver : driver.Keeps (.steady naming)) {first last : Context H}
    {starts : List (Context H)} (h : driver.Retries first starts last) :
    ∀ start ∈ starts ++ [last], first.Steady naming start := by
  induction h with
  | here _ =>
      intro start hmem
      rw [List.mem_singleton.mp hmem]
      exact .refl _
  | @again c _ _ _ _ ih =>
      intro start hmem
      rcases List.mem_cons.mp hmem with rfl | hrest
      · exact .refl _
      · exact Context.Steady.trans (hdriver c trivial).after.2 (ih start hrest)

/-! ## The block of an iteration -/

/-- The block that an iteration attaches: it declares no parameters, and forwards. -/
def Context.forwarding (c : Context H) (callback : H.Body) (data : Value) : Block H.Body :=
  c.capture .undeclared (.callback callback data) c.topSelf

/-- A call made under a pending mark activates the block on top of the stack. -/
theorem Context.invoking_activates {c : Context H} {blocks : Stack (Block H.Body)}
    {block : Block H.Body} (hblocks : c.blocks = blocks.push block)
    (hscope : ∃ scope, c.scopes.top? = some scope) (receiver : Value) (method : String) :
    (c.invoking receiver method .pending).Activates block where
  given := by
    have hmark : (c.methodFrame receiver method .pending).mark ≠ .absent := by
      simp [methodFrame, Attachment.forCallee]
    simp [isBlockGiven, invoking, hmark]
  live := by
    show c.blocks.live = block :: c.blocks.live.tail
    rw [hblocks]
    rfl
  scope := hscope

/-- An iteration attaches its block once, to all attempts of the driver, unless the block cannot be
captured. -/
theorem iterate_cases (eval : Evaluator H) (driver : Value -> Run Signal H Value)
    (data1 : Value) (callback : H.Body) (data2 : Value) (c : Context H) :
    c.Capturable ∧
        iterate eval driver data1 callback data2 c =
          (attempts finishIteration (driver data1) eval.limit).ensuring detachBlock
            (c.capturing.attaching (c.forwarding callback data2)) ∨
      ¬ c.Capturable ∧ ∃ fault,
        iterate eval driver data1 callback data2 c = .error (.fault fault) c := by
  unfold iterate
  rw [Run.bind_of_ok (Run.get_apply c)]
  rcases newBlockWithSelf_cases (ε := Signal) .undeclared (.callback callback data2) c.topSelf c with
    ⟨hcapturable, hblock⟩ | ⟨hnot, fault, hfault⟩
  · rw [Run.bind_of_ok hblock]
    exact Or.inl ⟨hcapturable, rfl⟩
  · exact Or.inr ⟨hnot, fault, Run.bind_of_error hfault⟩

/-- Every attempt of a nested driver begins with the block attached, and the methods that the driver
calls find it. -/
theorem Run.Retries.attached {naming : Prop} {driver : Run Signal H Value}
    (hdriver : driver.Nested naming) {c last : Context H} {block : Block H.Body}
    (hscope : ∃ scope, c.scopes.top? = some scope) {starts : List (Context H)}
    (h : driver.Retries (c.capturing.attaching block) starts last) :
    ∀ start ∈ starts ++ [last],
      start.marks.top? = some .pending ∧ start.blocks.top? = some block ∧
        ∀ receiver method, (start.invoking receiver method .pending).Activates block := by
  intro start hstart
  have hsteady := h.steady hdriver.keeps start hstart
  refine ⟨?_, ?_, fun receiver method => ?_⟩
  · rw [hsteady.marks]
    rfl
  · rw [hsteady.blocks]
    rfl
  · have hscopes : ∃ scope, start.scopes.top? = some scope := by
      rw [hsteady.scopes]
      exact hscope
    exact Context.invoking_activates hsteady.blocks hscopes receiver method

/-! ## The whole iteration -/

/-- An iteration attaches one block to all attempts of its driver, each on the same datum, and the
block hands every value that is yielded to it, packed, to the callback. -/
theorem iteration_hands_over (eval : Evaluator H) (driver : Value -> Run Signal (Logged H) Value)
    (data1 : Value) (callback : H.Body) (data2 : Value) (c : Context (Logged H)) :
    let block := c.forwarding callback data2
    let inside := c.capturing.attaching block
    let run := iterate eval.logging driver data1 callback data2
    -- Each attempt begins in the context that the attempt before it left, with the block attached.
    (c.Capturable ->
      run c = (attempts finishIteration (driver data1) eval.limit).ensuring detachBlock inside ∧
      ∀ starts last, (driver data1).Retries inside starts last -> starts.length < eval.limit ->
        run c = ((Rule.iteration.settled (driver data1)).ensuring detachBlock) last ∧
        ∀ naming, (driver data1).Nested naming -> ∀ start ∈ starts ++ [last],
          start.marks.top? = some .pending ∧ start.blocks.top? = some block ∧
          ∀ receiver method, (start.invoking receiver method .pending).Activates block) ∧
    (¬ c.Capturable -> ∃ fault, run c = .error (.fault fault) c) ∧
    -- Strictly, an array of one element counts as that element. Then the only element of an array is
    -- handed over, any other array as a new one with the same elements, and anything else as it is.
    ∀ d : Context (Logged H), d.Activates block -> ∀ value strict,
      let given := (d.heap.yielded value).1
      let site := (d.heap.yielded value).2
      ∃ counted first, site.CountsAs given strict counted ∧
        ∀ receiver cls, ∃ start requests, start.heap = site ∧
          ((yieldBlock eval.logging value receiver cls strict).after d).log = d.log ++ requests ∧
          (eval.limit ≠ 0 ->
            ∃ scene, requests.head? = some (.callback callback first data2 scene)) ∧
          eval.Forwards callback data2 site counted start requests ∧
          (∀ request ∈ requests, ∃ packed scene, request = .callback callback packed data2 scene ∧
            ((∀ only, site.items? given ≠ some [only]) ->
              packed = given ∨ scene.heap.items? packed = site.items? given) ∧
            (value = none -> scene.heap.items? packed = some [])) ∧
          ∀ own, counted = .array own -> site.arrays.Has own ->
            site.items? counted ≠ some [counted] ->
            (∀ packed scene ref, scene.heap.arrays.Has ref ->
              ((eval.runCallback callback packed data2).after scene).heap.arrays.Has ref) ->
            ∀ packed scene, .callback callback packed data2 scene ∈ requests ->
              packed ≠ counted := by
  intro block inside run
  refine ⟨fun hcapturable => ?_, fun hnot => ?_, ?_⟩
  · rcases iterate_cases eval.logging driver data1 callback data2 c with ⟨_, hrun⟩ | ⟨hnot, _⟩
    · refine ⟨hrun, fun starts last hretries hlimit => ⟨?_, fun naming hnested => ?_⟩⟩
      · have hattempts := Run.ensuring_congr (attempts_retries hretries hlimit) detachBlock
        exact hrun.trans hattempts
      · exact hretries.attached hnested hcapturable.scope
    · exact absurd hcapturable hnot
  · rcases iterate_cases eval.logging driver data1 callback data2 c with
      ⟨hcapturable, _⟩ | ⟨_, hfault⟩
    · exact absurd hcapturable hnot
    · exact hfault
  · intro d hact value strict given site
    have hcounted := site.countsAs_collapse given strict
    refine ⟨site.collapse given strict,
      (site.fromArgs (site.toArgs (site.collapse given strict))).1, hcounted, fun receiver cls => ?_⟩
    obtain ⟨start, requests, hstart, hlog, hforwards, hfirst⟩ :=
      yieldBlock_forwards hact rfl rfl eval value receiver cls strict
    refine ⟨start, requests, hstart, hlog, fun hlimit => ⟨_, hfirst hlimit⟩, hforwards,
      fun request hrequest => ?_, fun own hown hhas hloop hgrow => ?_⟩
    · obtain ⟨_, scene, packed, hpacked, hover⟩ := hforwards.handsOver request hrequest
      refine ⟨packed, scene, hpacked,
        fun hother => (hover.self_or_elements hcounted hother).imp_left And.right, ?_⟩
      rintro rfl
      have hempty : site.items? given = some [] := d.heap.items?_yielded_none
      rcases hover.self_or_elements hcounted (by simp [hempty]) with ⟨hplain, _⟩ | hcopy
      · cases hempty.symm.trans hplain
      · exact hcopy.trans hempty
    · rw [hown] at hforwards hloop ⊢
      exact hforwards.ne_own hgrow (hstart ▸ hhas) hloop

/-- A callback that asks for the driver again when it runs for the first time, and for another pass
of its own when it does for the second time. -/
def Evaluator.retrying : Evaluator Counting where
  limit := 3
  runBody _ _ _ := return .nil
  runCallback _ _ _ := fun c =>
    let d := { c with host := c.host + 1 }
    match c.host with
    | 0 => .error (.raised .retry) d
    | 1 => .error (.raised .redo) d
    | _ => .ok .nil d
  bind _ _ _ _ := return ()

theorem Evaluator.retrying_heap (packed data : Value) (scene : Context Counting) :
    ((Evaluator.retrying.runCallback () packed data).after scene).heap = scene.heap := by
  rcases hcount : scene.host with _ | _ | count <;> simp [Run.after, retrying, hcount]

/-- An array of one element that is yielded strictly: its element is an array of two, and reaches
the callback as a copy, in both attempts. -/
theorem iteration_hands_over_retrying :
    let started : Context Counting := (Context.new {} .silent (0 : Nat)).start 0
    let pair := started.heap.newArray [.int 1, .int 2]
    let outer := pair.2.newArray [pair.1]
    let c := Context.logged { started with heap := outer.2 } []
    let driver := fun argument => invoke .nil "each"
      (yieldBlock Evaluator.retrying.logging (some argument) none none true)
    let block := c.forwarding () (.int 7)
    let inside := c.capturing.attaching block
    let d := inside.invoking .nil "each" .pending
    (driver outer.1).signalsRetry inside = true ∧
    iterate Evaluator.retrying.logging driver outer.1 () (.int 7) c =
      (Rule.iteration.settled (driver outer.1)).ensuring detachBlock
        ((driver outer.1).after inside) ∧
    d.Activates block ∧
    ∃ requests, requests ≠ [] ∧
      ((yieldBlock Evaluator.retrying.logging (some outer.1) none none true).after d).log =
        requests ∧
      ∀ packed scene, .callback () packed (.int 7) scene ∈ requests -> packed ≠ pair.1 := by
  intro started pair outer c driver block inside d
  obtain ⟨hattempts, _, hyields⟩ :=
    iteration_hands_over Evaluator.retrying driver outer.1 () (.int 7) c
  have hact : d.Activates block := Context.invoking_activates rfl ⟨_, rfl⟩ .nil "each"
  have hretry : (driver outer.1).signalsRetry inside = true := by decide +kernel
  have hlast : (driver outer.1).signalsRetry ((driver outer.1).after inside) = false := by
    decide +kernel
  have hretries := Run.Retries.again hretry (.here hlast)
  refine ⟨hretry, ?_, hact, ?_⟩
  · have hcapturable : c.Capturable := ⟨⟨_, rfl⟩, ⟨_, rfl⟩, ⟨_, rfl⟩⟩
    exact ((hattempts hcapturable).2 _ _ hretries (by decide)).1
  · obtain ⟨counted, first, hcounted, hyield⟩ := hyields d hact (some outer.1) true
    obtain ⟨start, requests, _, hlog, hfirst, _, _, hown⟩ := hyield none none
    obtain ⟨scene, hhead⟩ := hfirst (by decide)
    have hone : d.heap.items? outer.1 = some [pair.1] := pair.2.items?_newArray [pair.1]
    have hpair : counted = pair.1 := by
      cases hcounted with
      | element hitems =>
          exact (List.singleton_inj.mp (Option.some.inj (hone.symm.trans hitems))).symm
      | itself hother => exact absurd hone (hother rfl pair.1)
    refine ⟨requests, ?_, hlog, fun packed scene hmem => ?_⟩
    · intro hnone
      rw [hnone] at hhead
      cases hhead
    have hkept : ∀ (packed : Value) (scene : Context Counting) ref, scene.heap.arrays.Has ref ->
        ((Evaluator.retrying.runCallback () packed (.int 7)).after scene).heap.arrays.Has ref := by
      intro packed scene ref href
      rw [Evaluator.retrying_heap]
      exact href
    have hhas := started.heap.arrays.has_alloc [.int 1, .int 2]
    have hitems : d.heap.items? counted = some [.int 1, .int 2] := by
      rw [hpair]
      have hread := Arena.read_alloc_of_has hhas [pair.1]
      rw [Arena.read_alloc_self] at hread
      exact congrArg some hread
    have hpacked := hown _ hpair (hhas.alloc [pair.1])
      (fun h => by cases hitems.symm.trans h) hkept packed scene hmem
    rw [hpair] at hpacked
    exact hpacked

end ExecutionContext
