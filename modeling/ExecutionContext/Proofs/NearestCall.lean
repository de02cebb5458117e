import ExecutionContext.Proofs.Routing

/-! # The call that a break ends

A `break` and a `retry` carry no identity of the block that raised them. Each is taken
by the nearest call around it that has a block attached, and so reaches the call that
received the block only while no other such call lies in between. A block that yields
on from inside another block call puts one in between.
-/

namespace ExecutionContext

variable {H : Host}

/-! ## Nests that unwind -/

def Layer.isBlockCall : Layer H -> Bool
  | .withBlock _ | .iterate .. => true
  | _ => false

def Layer.broken (value : Value) : Layer H -> Value
  | .iterate .. => .nil
  | _ => value

def Level.isBlockCall (level : Level H) : Bool :=
  level.layer.isBlockCall

/-- The operation that opened the level, run from where it was called. -/
def Level.result (level : Level H) : EStateM.Result (Exit Signal) (Context H) Value :=
  level.layer.around level.eval level.callback level.outside

/-- A run comes down to the innermost run, at its point, through a nest of layers. Between two
layers code may do anything with an answer, and an error of the next layer ends it. -/
inductive Unwinds (inner : Run Signal H Value) (point : Context H) :
    List (Level H) -> Run Signal H Value -> Context H -> Prop where
  | here : Unwinds inner point [] inner point
  | failing {levels : List (Level H)} {run next : Run Signal H Value} {c d : Context H} :
      (∀ exit e, next d = .error exit e -> run c = .error exit e) ->
      Unwinds inner point levels next d -> Unwinds inner point levels run c
  | inside {levels : List (Level H)} (level : Level H) :
      level.UnderWay -> Unwinds inner point levels level.code level.again ->
      Unwinds inner point (level :: levels) (level.layer.around level.eval level.callback)
        level.outside

namespace Unwinds

variable {inner run : Run Signal H Value} {point c : Context H}

/-- A level of the nest is under way, and the levels inside it are the nest of its code. -/
theorem split {outer passed : List (Level H)} {level : Level H}
    (h : Unwinds inner point (outer ++ level :: passed) run c) :
    level.UnderWay ∧ Unwinds inner point passed level.code level.again := by
  generalize hl : outer ++ level :: passed = levels at h
  induction h generalizing outer with
  | here => simp at hl
  | failing _ _ ih => exact ih hl
  | inside first hway hrest ih =>
      cases outer with
      | nil =>
          obtain ⟨rfl, rfl⟩ := List.cons.inj hl
          exact ⟨hway, hrest⟩
      | cons _ outer => exact ih (List.cons.inj hl).2

theorem underWay {levels : List (Level H)} (h : Unwinds inner point levels run c) :
    ∀ level ∈ levels, level.UnderWay := by
  intro level hmem
  obtain ⟨outer, passed, rfl⟩ := List.append_of_mem hmem
  exact h.split.1

/-- An end that no level gives a meaning comes out of the nest unchanged. -/
theorem handed {levels : List (Level H)} (h : Unwinds inner point levels run c) {d e : Context H}
    {exit : Exit Signal} (hinner : inner point = .error exit d)
    (hignored : Ignored levels d.heap exit) (hclose : closeAll levels d = .ok () e) :
    run c = .error exit e := by
  induction h generalizing e with
  | here =>
      cases hclose
      exact hinner
  | failing hfail _ ih => exact hfail exit e (ih hignored hclose)
  | @inside levels level hway hrest ih =>
      obtain ⟨m, hm, he⟩ := closeAll_cons hclose
      have hcode := ih (fun other hmem => hignored other (List.mem_cons_of_mem _ hmem)) hm
      have hpassed := hignored level List.mem_cons_self
      rw [← closeAll_heap hrest.underWay hm] at hpassed
      rw [hway.around_eq, hcode]
      simp only [Level.ending, Run.ensuring, settle_ignored hpassed, he]

end Unwinds

/-! ## The nearest call -/

/-- Layers other than calls with a block hand a break and a retry on. -/
theorem Layer.rule_of_not_blockCall {l : Layer H} (h : l.isBlockCall = false) (heap : Heap) :
    (∀ value, l.rule heap (.breakWith value) = .passed) ∧ l.rule heap .retry = .passed := by
  cases l with
  | iterate _ _ => cases h
  | withBlock _ => cases h
  | _ => exact ⟨fun _ => rfl, rfl⟩

theorem Layer.rule_of_blockCall {l : Layer H} (h : l.isBlockCall = true) (heap : Heap) :
    (∀ value, l.rule heap (.breakWith value) = .answered (l.broken value)) ∧
      l.rule heap .retry = .repeated := by
  cases l with
  | iterate _ _ => exact ⟨fun _ => rfl, rfl⟩
  | withBlock _ => exact ⟨fun _ => rfl, rfl⟩
  | _ => cases h

theorem ignored_break {passed : List (Level H)} (h : ∀ level ∈ passed, level.isBlockCall = false)
    (heap : Heap) (value : Value) : Ignored passed heap (.raised (.breakWith value)) := by
  rintro level hmem signal ⟨⟩
  exact (Layer.rule_of_not_blockCall (h level hmem) heap).1 value

theorem ignored_retry {passed : List (Level H)} (h : ∀ level ∈ passed, level.isBlockCall = false)
    (heap : Heap) : Ignored passed heap (.raised .retry) := by
  rintro level hmem signal ⟨⟩
  exact (Layer.rule_of_not_blockCall (h level hmem) heap).2

/-- The levels' binders are balanced, and code left the stacks as it found them down to the point
where the innermost run ended in `d`. -/
structure Undisturbed (F : Fault -> Prop) (point d c : Context H) (levels : List (Level H)) :
    Prop where
  based : c.Based
  binders : ∀ level ∈ levels, ∀ pattern receiver value strict,
    (level.eval.bind pattern receiver value strict).Keeps (Contract.balanced F)
  kept : KeptDownTo point c levels
  same : point.SameStacks d

/-- Whatever block raised it, a break ends the nearest call that has a block attached, and a retry
runs that call again. The block need not have been given to this call. -/
theorem nearest_call_taken {F : Fault -> Prop} {inner run : Run Signal H Value}
    {point c d : Context H} {outer passed : List (Level H)} {call : Level H}
    (hnest : Unwinds inner point (outer ++ call :: passed) run c)
    (hcall : call.isBlockCall = true) (hpassed : ∀ level ∈ passed, level.isBlockCall = false)
    (hstacks : Undisturbed F point d call.outside (call :: passed)) :
    (∀ value, inner point = .error (.raised (.breakWith value)) d ->
      call.result = .ok (call.layer.broken value) (giveBackAll (call :: passed) d)) ∧
    (inner point = .error (.raised .retry) d ->
      call.result = call.rest.ensuring call.close (giveBackAll passed d)) ∧
    call.outside.SameStacks (giveBackAll (call :: passed) d) := by
  obtain ⟨hway, hcode⟩ := hnest.split
  have hways : ∀ level ∈ call :: passed, level.UnderWay := by
    intro level hmem
    rcases List.mem_cons.mp hmem with rfl | hmem
    · exact hway
    · exact hcode.underWay level hmem
  obtain ⟨hcloses, hsame⟩ :=
    closeAll_eq hways hstacks.binders hstacks.based hstacks.kept hstacks.same
  have hclose := hcloses [call] passed rfl
  obtain ⟨m, hm, hlevel⟩ := closeAll_cons (hcloses [] (call :: passed) rfl)
  cases hm.symm.trans hclose
  have hresult : call.result = call.ending (call.code call.again) := hway.around_eq
  have hrule := Layer.rule_of_blockCall hcall (giveBackAll passed d).heap
  refine ⟨?_, ?_, hsame⟩
  · intro value hinner
    have hreached := hcode.handed hinner (ignored_break hpassed d.heap value) hclose
    rw [hresult, hreached]
    simp only [Level.ending, Run.ensuring, Rule.settle, Level.rule, hrule.1 value, hlevel]
  · intro hinner
    have hreached := hcode.handed hinner (ignored_retry hpassed d.heap) hclose
    rw [hresult, hreached]
    simp only [Level.ending, Run.ensuring, Rule.settle, Level.rule, hrule.2]

/-! ## A block that yields on -/

/-- A host with the code of two blocks: `true` yields on, `false` raises a signal. -/
abbrev Relay : Host :=
  { Body := Bool, State := Unit }

def Context.relay : Context Relay :=
  (Context.new {} .silent ()).start 0

theorem Context.based_relay : Context.relay.Based :=
  based_start rfl rfl 0

namespace Evaluator

/-- The block yielded to last raises the signal. -/
def relayed (signal : Signal) : Evaluator Relay where
  limit := 1
  runBody := fun _ _ _ => Run.raise signal
  runCallback := fun _ _ _ => Run.raise signal
  bind := fun _ _ _ _ => return ()

def relaying (signal : Signal) : Evaluator Relay where
  limit := 1
  runBody := fun onward _ _ =>
    if onward then yieldBlock (.relayed signal) none none none false else Run.raise signal
  runCallback := fun _ _ _ => Run.raise signal
  bind := fun _ _ _ _ => return ()

end Evaluator

def innerCall (signal : Signal) (block : Block Bool) : Run Signal Relay Value :=
  callWithBlock (.relaying signal) block
    (invoke .nil "each" (yieldBlock (.relaying signal) none none none false))

def raisingBlock : Block Bool :=
  Context.relay.capture .undeclared (.body false) .nil

/-- A method that was called with that block. -/
def Context.mapping : Context Relay :=
  (Context.relay.attaching raisingBlock).invoking .nil "map" .pending

/-- A block of that method, which yields on to the block that the method was called with. -/
def relayingBlock : Block Bool :=
  Context.mapping.capture .undeclared (.body true) .nil

/-- The break that the method's block passes on ends the call that the method makes. -/
theorem break_ends_inner_call :
    ∃ e, innerCall (.breakWith (.int 7)) relayingBlock Context.mapping = .ok (.int 7) e ∧
      Context.mapping.SameStacks e := by
  let call : Level Relay :=
    .start (.relaying (.breakWith (.int 7))) (.withBlock relayingBlock)
      (invoke .nil "each" (yieldBlock (.relaying (.breakWith (.int 7))) none none none false))
      Context.mapping
  let method : Level Relay :=
    .start (.relaying (.breakWith (.int 7))) (.invoke .nil "each")
      (yieldBlock (.relaying (.breakWith (.int 7))) none none none false) call.inside
  let yielding : Level Relay :=
    .start (.relaying (.breakWith (.int 7))) (.yield none none none false) Run.exhausted
      method.inside
  let relayed : Level Relay :=
    .start (.relayed (.breakWith (.int 7))) (.yield none none none false) Run.exhausted
      yielding.inside
  have hnest : Unwinds (Run.raise (.breakWith (.int 7))) relayed.again
      ([] ++ call :: [method, yielding, relayed])
      (innerCall (.breakWith (.int 7)) relayingBlock) Context.mapping := by
    refine .inside call (Level.start_underWay rfl rfl) ?_
    refine .inside method (Level.start_underWay rfl rfl) ?_
    refine .inside yielding (Level.start_underWay rfl rfl) ?_
    exact .inside relayed (Level.start_underWay rfl rfl) .here
  have hbased : Context.mapping.Based :=
    (Context.based_relay.attaching raisingBlock).invoking .nil "map" .pending
  have hbinders : ∀ level ∈ [call, method, yielding, relayed], ∀ pattern receiver value strict,
      (level.eval.bind pattern receiver value strict).Keeps (Contract.balanced fun _ => False) := by
    simp only [List.mem_cons, List.not_mem_nil, or_false, forall_eq_or_imp, forall_eq]
    exact ⟨fun _ _ _ _ => .pure _, fun _ _ _ _ => .pure _, fun _ _ _ _ => .pure _,
      fun _ _ _ _ => .pure _⟩
  have hkept : KeptDownTo relayed.again Context.mapping [call, method, yielding, relayed] :=
    ⟨.refl _, .refl _, .refl _, .refl _, .refl _, .refl _, .refl _, .refl _, .refl _⟩
  have hpassed : ∀ level ∈ [method, yielding, relayed], level.isBlockCall = false := by
    simp only [List.mem_cons, List.not_mem_nil, or_false, forall_eq_or_imp, forall_eq]
    exact ⟨rfl, rfl, rfl⟩
  obtain ⟨hbreak, _, hsame⟩ :=
    nearest_call_taken hnest rfl hpassed ⟨hbased, hbinders, hkept, .refl _⟩
  exact ⟨_, hbreak (.int 7) rfl, hsame⟩

/-- A method makes such a call and answers 99; it is itself called with a block whose body raises
the signal. -/
def outerCall (signal : Signal) : Run Signal Relay Value :=
  callWithBlock (.relaying signal) raisingBlock
    (invoke .nil "map" do
      let block ← newBlock .undeclared (.body true)
      let _ ← innerCall signal block
      return .int 99)

/-- The break does not end the call that received the block: that call goes on, and answers. -/
theorem break_misses_call :
    (outerCall (.breakWith (.int 7))).answer? Context.relay = some (.int 99) ∧
      (outerCall (.breakWith (.int 7))).answer? Context.relay ≠ some (.int 7) := by
  decide +kernel

end ExecutionContext
