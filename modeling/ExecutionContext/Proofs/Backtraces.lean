import ExecutionContext.Proofs.DefaultBinder
import ExecutionContext.Proofs.Escape
import ExecutionContext.Proofs.Operations

/-! # Where backtraces are recorded

A failure that the context makes is recorded at once, among the frames that are on the
stack at that moment. A refused operation fails among the frames it was called with, and
so does a layer that does not open; only a block whose parameters cannot be bound fails
with its own frame on top. A backtrace that was recorded is never replaced.
-/

namespace ExecutionContext

variable {H : Host} {ε α β : Type}

/-! ## Recording -/

theorem Failure.backtrace_attach (failure : Failure) (backtrace : Backtrace) :
    (failure.attach backtrace).backtrace = some (failure.backtrace.getD backtrace) := by
  unfold attach
  cases h : failure.backtrace with
  | some recorded => exact h
  | none => rfl

theorem Failure.attach_of_some {failure : Failure} {recorded : Backtrace}
    (h : failure.backtrace = some recorded) (backtrace : Backtrace) :
    failure.attach backtrace = failure := by
  simp only [attach, h]

namespace Context

theorem backtrace_attach (c : Context H) {failure : Failure} (h : failure.backtrace = none) :
    (c.attach failure).backtrace = some c.backtrace := by
  rw [attach, Failure.backtrace_attach, h]
  rfl

theorem length_backtrace (c : Context H) : c.backtrace.length = c.frames.depth := by
  rw [backtrace, List.length_map, Stack.depth_eq_length]

/-- The backtrace in the activation of a block, or outside of any. -/
def backtraceWithin (c : Context H) : Option (Block H.Body) -> Backtrace
  | none => c.backtrace
  | some block => (c.frameCells.read block.frame).displayName :: c.backtrace

theorem backtrace_entering (c : Context H) (block : Block H.Body) (cls : Option (Ref .module)) :
    (c.entering block cls).backtrace = c.backtraceWithin (some block) := rfl

theorem length_backtraceWithin (c : Context H) (active : Option (Block H.Body)) :
    (c.backtraceWithin active).length = c.frames.depth + active.toList.length := by
  cases active with
  | none => exact c.length_backtrace
  | some block => exact congrArg Nat.succ c.length_backtrace

def framing (c : Context H) : Stack (Ref .frame) × Arena .frame Frame :=
  (c.frames, c.frameCells)

theorem backtrace_of_framing {c d : Context H} (h : d.framing = c.framing) :
    d.backtrace = c.backtrace := by
  obtain ⟨hframes, hcells⟩ := Prod.mk.inj h
  rw [backtrace, backtrace, hframes, hcells]

end Context

/-! ## Runs that fail among the frames they began with -/

namespace Run

theorem bind_raised {run : Run ε H α} {next : α -> Run ε H β} {c e : Context H} {signal : ε}
    (h : (run >>= next) c = .error (.raised signal) e) :
    run c = .error (.raised signal) e ∨
      ∃ a d, run c = .ok a d ∧ next a d = .error (.raised signal) e := by
  cases hrun : run c with
  | ok a d => exact Or.inr ⟨a, d, rfl, (bind_of_ok hrun).symm.trans h⟩
  | error exit d =>
      rw [bind_of_error hrun] at h
      cases h
      exact Or.inl rfl

theorem signalling_raised {run : Run Failure H α} {c d : Context H} {failure : Failure}
    (h : run.signalling c = .error (.raised (.failure failure)) d) :
    run c = .error (.raised failure) d := by
  unfold signalling at h
  cases hr : run c with
  | ok a e => rw [hr] at h; cases h
  | error exit e =>
      rw [hr] at h
      cases exit <;> cases h
      rfl

abbrev Silent (run : Run ε H α) : Prop :=
  run.Raises fun _ => False

theorem unwinding_raised {run : Run ε H α} {restore : Run ε H Unit} (hr : restore.Silent)
    {c d : Context H} {signal : ε} (h : run.unwinding restore c = .error (.raised signal) d) :
    ∃ e, run c = .error (.raised signal) e := by
  unfold unwinding at h
  cases hrun : run c with
  | ok a e => rw [hrun] at h; cases h
  | error exit e =>
      rw [hrun] at h
      dsimp only at h
      cases hrestore : restore e with
      | ok _ f =>
          rw [hrestore] at h
          cases h
          exact ⟨e, rfl⟩
      | error other f =>
          rw [hrestore] at h
          cases h
          exact (hr e signal d hrestore).elim

/-- What the run raises carries the backtrace of the frames on the stack when it began, and these
are still there. -/
def Locates (run : Run Failure H α) : Prop :=
  ∀ c failure d, run c = .error (.raised failure) d ->
    d.framing = c.framing ∧ failure.backtrace = some c.backtrace

namespace Locates

theorem of_silent {run : Run Failure H α} (h : run.Silent) : run.Locates :=
  fun c failure d hr => (h c failure d hr).elim

theorem failWith (cause : Cause) : (failWith cause : Run Failure H α).Locates := by
  intro c failure d hr
  cases hr
  exact ⟨rfl, rfl⟩

theorem bind {run : Run Failure H α} {next : α -> Run Failure H β} (h : run.Locates)
    (hkept : ∀ {c a d}, run c = .ok a d -> d.framing = c.framing)
    (hn : ∀ a, (next a).Locates) : (run >>= next).Locates := by
  intro c failure e hr
  rcases bind_raised hr with hfirst | ⟨a, d, hrun, hnext⟩
  · exact h c failure e hfirst
  · obtain ⟨hframing, htrace⟩ := hn a d failure e hnext
    rw [Context.backtrace_of_framing (hkept hrun)] at htrace
    exact ⟨hframing.trans (hkept hrun), htrace⟩

theorem bind_silent {run : Run Failure H α} {next : α -> Run Failure H β} (h : run.Locates)
    (hn : ∀ a, (next a).Silent) : (run >>= next).Locates := by
  intro c failure e hr
  rcases bind_raised hr with hfirst | ⟨a, d, _, hnext⟩
  · exact h c failure e hfirst
  · exact (hn a d failure e hnext).elim

theorem get_bind {next : Context H -> Run Failure H β} (hn : ∀ c, (next c).Locates) :
    (MonadState.get >>= next).Locates := by
  refine (of_silent .get).bind ?_ hn
  intro c a d hr
  cases hr
  rfl

end Locates

end Run

open Run

/-! ## Single operations that may be refused -/

theorem checkDepth_locates : (checkDepth : Run Failure H Unit).Locates := by
  refine Locates.get_bind fun c => ?_
  split
  · split
    · exact .failWith _
    · exact .of_silent (.pure _)
  · exact .of_silent (.pure _)

theorem pushFrame_locates (receiver : Value) (method : Option String) :
    (pushFrame receiver method : Run Failure H _).Locates := by
  refine checkDepth_locates.bind_silent fun _ => ?_
  refine (Tidy.currentMark.raises _).bind fun mark => Raises.get.bind fun c => ?_
  exact (Tidy.openFrame _).raises _

theorem setSafeLevel_locates (level : Nat) : (setSafeLevel level : Run Failure H Unit).Locates := by
  refine Locates.get_bind fun c => ?_
  split
  · exact .failWith _
  · exact .of_silent (.set _)

theorem secure_locates (level : Nat) : (secure level : Run Failure H Unit).Locates := by
  refine Locates.get_bind fun c => ?_
  split
  · exact .failWith _
  · exact .of_silent (.pure _)

theorem aliasGlobal_locates (old new : String) :
    (aliasGlobal old new : Run Failure H Unit).Locates := by
  refine Locates.get_bind fun c => ?_
  split
  · exact .failWith _
  · exact .of_silent (.set _)

theorem writeSpecial_locates (kind : SpecialGlobal) (value : Value) :
    (writeSpecial kind value : Run Failure H Unit).Locates := by
  cases kind with
  | safeLevel =>
      refine Locates.get_bind fun c => ?_
      cases value with
      | int requested =>
          dsimp only
          split
          · exact .failWith _
          · exact setSafeLevel_locates _
      | _ => exact .failWith _
  | lastLine => exact .of_silent (setSpecialSlot_within _ value).silent
  | lastMatch => exact .of_silent (setSpecialSlot_within _ value).silent

theorem Variable.backtrace_of_refused {var : Variable} {cells : GlobalCells} {value : Value}
    {failure : Failure} (h : var.write cells value = .error failure) :
    failure.backtrace = none := by
  induction var with
  | plain name cell => cases h
  | readOnly name fixed => cases h; rfl
  | special name kind => cases h
  | aliasOf name target ih => exact ih h

theorem Globals.backtrace_of_refused {globals : Globals} {name : String} {value : Value}
    {failure : Failure} (h : globals.set name value = .error failure) :
    failure.backtrace = none := by
  simp only [Globals.set] at h
  split at h
  · cases h
  · next hwrite =>
      cases h
      exact Variable.backtrace_of_refused hwrite

theorem globalSet_locates (name : String) (value : Value) :
    (globalSet name value : Run Failure H Value).Locates := by
  intro c failure d hr
  cases hset : c.globals.set name value with
  | error own =>
      cases (globalSet_refused hset).symm.trans hr
      exact ⟨rfl, c.backtrace_attach (Globals.backtrace_of_refused hset)⟩
  | ok written =>
      obtain ⟨outcome, globals⟩ := written
      cases outcome with
      | stored => cases (globalSet_stored hset).symm.trans hr
      | special kind =>
          have hwrite : (do writeSpecial kind value; return value : Run Failure H Value).Locates :=
            (writeSpecial_locates kind value).bind_silent fun _ => .pure _
          exact hwrite c failure d ((globalSet_special hset).symm.trans hr)

theorem defineClassUnder_locates (name superclass : String) :
    (defineClassUnder name superclass : Run Failure H _).Locates := by
  refine Locates.get_bind fun c => ?_
  split
  · exact .of_silent (defineClass_within name _).silent
  · exact .failWith _

/-! ## Operations that read and load -/

/-- Looking at the search path may define it, but leaves the frames alone. -/
theorem framing_searchPath {c d : Context H} {paths : List Path}
    (h : (searchPath : Run ε H _) c = .ok paths d) : d.framing = c.framing := by
  cases (bind_of_ok (globalGet_eq searchPathName c)).symm.trans h
  rfl

theorem findFile_locates (found : Path -> Bool) (path : Path) :
    (findFile found path : Run Failure H Path).Locates := by
  unfold findFile
  extract_lets rest
  have hrest : ∀ directories, (rest directories).Locates := by
    intro directories
    simp only [rest]
    split
    · exact .of_silent (.pure _)
    · exact .failWith _
  split
  · exact hrest []
  · exact (Locates.of_silent searchPath_within.silent).bind framing_searchPath hrest

/-- A failure of the parser is recorded where it is compiled, unless the parser did that. -/
theorem compile_raised {parse : Parser α} {c d : Context H} {failure : Failure}
    (h : compile parse c = .error (.raised failure) d) :
    d = c ∧ ∃ names own, parse names = .error own ∧ failure = c.attach own := by
  rcases bind_raised h with hscope | ⟨scope, e, hscope, hparsed⟩
  · exact ((Tidy.currentScope.raises fun _ => False) c failure d hscope).elim
  · obtain rfl : e = c := by
      rcases Looks.currentScope c with ⟨a, ha⟩ | ⟨exit, he⟩
      · cases ha.symm.trans hscope
        rfl
      · cases he.symm.trans hscope
    simp only [bind_apply, get_apply] at hparsed
    cases hparse : parse (e.scopeCells.read scope).names with
    | error own =>
        rw [hparse] at hparsed
        cases hparsed
        exact ⟨rfl, _, own, hparse, rfl⟩
    | ok parsed =>
        obtain ⟨tree, names⟩ := parsed
        rw [hparse] at hparsed
        cases names <;> cases hparsed

/-! ## All operations -/

/-- A failure of a single operation that was called in `c` carries the backtrace of the frames
there. Only a parser may have recorded one of its own. -/
def Failure.RecordedBy (failure : Failure) (run : Run Failure H α) (c : Context H) : Prop :=
  failure.backtrace = some c.backtrace ∨
    ∃ parse names, run = compile parse ∧ parse names = .error failure ∧
      failure.backtrace.isSome = true

theorem Run.Locates.recordedBy {run : Run Failure H α} (h : run.Locates) {c d : Context H}
    {failure : Failure} (hr : run c = .error (.raised failure) d) :
    d.framing = c.framing ∧ failure.RecordedBy run c :=
  ⟨(h c failure d hr).1, Or.inl (h c failure d hr).2⟩

theorem compile_recordedBy {parse : Parser α} {c d : Context H} {failure : Failure}
    (h : compile parse c = .error (.raised failure) d) :
    d.framing = c.framing ∧ failure.RecordedBy (compile parse) c := by
  obtain ⟨rfl, names, own, hparse, rfl⟩ := compile_raised h
  refine ⟨rfl, ?_⟩
  cases hown : own.backtrace with
  | none => exact Or.inl (d.backtrace_attach hown)
  | some recorded =>
      refine Or.inr ⟨parse, names, rfl, ?_, ?_⟩
      · rw [Context.attach, Failure.attach_of_some hown]
        exact hparse
      · rw [Context.attach, Failure.backtrace_attach]
        rfl

/-- A refused operation fails among the frames that it was called with. -/
theorem Operation.recordedBy {effects : List Effect} {run : Run Failure H α}
    (h : Operation effects run) {c d : Context H} {failure : Failure}
    (hr : run c = .error (.raised failure) d) :
    d.framing = c.framing ∧ failure.RecordedBy run c := by
  have hrefused := h.within.raises c failure d hr
  cases h with
  | pushFrame receiver method => exact (pushFrame_locates receiver method).recordedBy hr
  | setSafeLevel level => exact (setSafeLevel_locates level).recordedBy hr
  | secure level => exact (secure_locates level).recordedBy hr
  | globalSet name value => exact (globalSet_locates name value).recordedBy hr
  | aliasGlobal old new => exact (aliasGlobal_locates old new).recordedBy hr
  | defineClassUnder name superclass =>
      exact (defineClassUnder_locates name superclass).recordedBy hr
  | findFile found path => exact (findFile_locates found path).recordedBy hr
  | compile parse => exact compile_recordedBy hr
  -- What is left is not refused.
  | _ => exact absurd hrefused (by decide)

/-! ## Binding parameters -/

theorem recordingBacktrace_raised {run : Run Failure H α} {c d : Context H} {failure : Failure}
    (h : recordingBacktrace run c = .error (.raised failure) d) :
    ∃ own, run c = .error (.raised own) d ∧ failure = d.attach own := by
  unfold recordingBacktrace at h
  cases hr : run c with
  | ok a e => rw [hr] at h; cases h
  | error exit e =>
      rw [hr] at h
      cases exit <;> cases h
      exact ⟨_, rfl, rfl⟩

/-- Where binding fails, the frames are those that it began with, and the failure was recorded there
if it was recorded at all. -/
def BindsInPlace (bind : Pattern -> Value -> Value -> Bool -> Run Failure H Unit) : Prop :=
  ∀ pattern receiver value strict,
    (recordingBacktrace (bind pattern receiver value strict)).Locates

theorem bindDynamic_locates (pattern : Pattern) (value : Value) (strict : Bool) :
    (recordingBacktrace (bindDynamic pattern value strict) : Run Failure H Unit).Locates := by
  intro c failure d h
  obtain ⟨own, hown, rfl⟩ := recordingBacktrace_raised h
  cases pattern with
  | single name => cases hown
  | multiple names splat =>
      rw [bindDynamic_multiple] at hown
      split at hown <;> cases hown
      exact ⟨rfl, rfl⟩

/-- Binding the parameters of a block fails for arguments that the block does not take, or where
the binder fails. -/
theorem bindParams_raised {eval : Evaluator H} {params : Params} {receiver value : Value}
    {strict : Bool} {c d : Context H} {own : Failure}
    (h : bindParams eval params receiver value strict c = .error (.raised own) d) :
    (params = .empty ∧ strict = true ∧ d = c ∧
        ∃ count, 0 < count ∧ own = { cause := .wrongArguments 0 count }) ∨
      ∃ pattern given, params = .pattern pattern ∧
        eval.bind pattern receiver given strict c = .error (.raised own) d := by
  unfold bindParams at h
  rw [bind_of_ok (get_apply c)] at h
  cases params with
  | undeclared => cases h
  | pattern pattern =>
      rcases bind_raised h with hbind | ⟨_, e, _, hpure⟩
      · exact Or.inr ⟨pattern, _, rfl, hbind⟩
      · cases hpure
  | empty =>
      cases strict with
      | false => cases h
      | true =>
          dsimp only at h
          cases hitems : c.heap.items? value with
          | none => rw [hitems] at h; cases h
          | some items =>
              rw [hitems] at h
              cases items with
              | nil => cases h
              | cons item items =>
                  cases h
                  exact Or.inl ⟨rfl, rfl, rfl, _, Nat.succ_pos _, rfl⟩

/-- What a yield without a value hands to its block is a new array, and only the heap knows. -/
theorem prepareArgs_raised {eval : Evaluator H} {block : Block H.Body} {receiver : Value}
    {value : Option Value} {strict : Bool} {c d : Context H} {failure : Failure}
    (h : prepareArgs eval block receiver value strict c = .error (.raised (.failure failure)) d) :
    ∃ given heap own, failure = d.attach own ∧
      bindParams eval block.params receiver given strict { c with heap := heap } =
        .error (.raised own) d := by
  have hbound : ∀ {given : Value} {start : Context H}, (do
      let bound ← Run.signalling
        (recordingBacktrace (bindParams eval block.params receiver given strict))
      return (← get).heap.toArgs bound : Run Signal H (List Value)) start =
        .error (.raised (.failure failure)) d ->
      ∃ own, failure = d.attach own ∧
        bindParams eval block.params receiver given strict start = .error (.raised own) d := by
    intro given start hr
    rcases bind_raised hr with hparams | ⟨_, e, _, hpure⟩
    · obtain ⟨own, hown, rfl⟩ := recordingBacktrace_raised (signalling_raised hparams)
      exact ⟨own, rfl, hown⟩
    · cases hpure
  cases value with
  | some given =>
      obtain ⟨own, hown, hparams⟩ := hbound h
      exact ⟨given, c.heap, own, hown, hparams⟩
  | none =>
      obtain ⟨own, hown, hparams⟩ := hbound h
      exact ⟨_, _, own, hown, hparams⟩

/-! ## Layers that do not open -/

/-- How opening a layer in `c` fails when patterns are bound by `bind`: without a block to yield to,
at the limit on the depth of frames, or in the activation of a block that the arguments do not
fit. -/
inductive OpeningFailure (bind : Pattern -> Value -> Value -> Bool -> Run Failure H Unit)
    (c : Context H) : Option (Block H.Body) -> Failure -> Prop where
  | noBlock : c.yieldTarget? = none ->
      OpeningFailure bind c none (c.attach { cause := .noBlockGiven })
  | tooDeep {limit : Nat} : c.config.maxCallDepth = some limit -> limit ≤ c.frames.depth ->
      OpeningFailure bind c none (c.attach { cause := .depthExceeded limit })
  -- The block declares that it takes no arguments, and gets some.
  | arity {block : Block H.Body} {count : Nat} (cls : Option (Ref .module)) :
      c.yieldTarget? = some block -> block.params = .empty -> 0 < count ->
      OpeningFailure bind c (some block)
        ((c.entering block cls).attach { cause := .wrongArguments 0 count })
  -- The failure is recorded in the context that the binding left.
  | unbound {block : Block H.Body} {cls : Option (Ref .module)} {pattern : Pattern}
      {receiver value : Value} {strict : Bool} {heap : Heap} {own : Failure} {bound : Context H} :
      c.yieldTarget? = some block -> block.params = .pattern pattern ->
      bind pattern receiver value strict { c.entering block cls with heap := heap } =
        .error (.raised own) bound ->
      OpeningFailure bind c (some block) (bound.attach own)

namespace OpeningFailure

variable {bind : Pattern -> Value -> Value -> Bool -> Run Failure H Unit} {c : Context H}
  {active : Option (Block H.Body)} {failure : Failure}

theorem yieldTarget?_eq {block : Block H.Body} (h : OpeningFailure bind c (some block) failure) :
    c.yieldTarget? = some block := by
  cases h with
  | arity cls ht _ _ => exact ht
  | unbound ht _ _ => exact ht

/-- A layer fails to open among the frames that are there; a block that the arguments do not fit has
its own frame on top of them. -/
theorem backtrace_eq (h : OpeningFailure bind c active failure) (hb : BindsInPlace bind) :
    failure.backtrace = some (c.backtraceWithin active) := by
  cases h with
  | noBlock _ => rfl
  | tooDeep _ _ => rfl
  | arity cls _ _ _ => rfl
  | @unbound block cls pattern receiver value strict heap own bound _ _ hbind =>
      have hrecorded : recordingBacktrace (bind pattern receiver value strict)
          { c.entering block cls with heap := heap } =
            .error (.raised (bound.attach own)) bound := by
        simp only [recordingBacktrace, hbind]
      exact (hb _ _ _ _ _ _ _ hrecorded).2

end OpeningFailure

theorem checkDepth_raised {c d : Context H} {failure : Failure}
    (h : checkDepth c = .error (.raised failure) d) :
    ∃ limit, c.config.maxCallDepth = some limit ∧ limit ≤ c.frames.depth ∧
      failure = c.attach { cause := .depthExceeded limit } := by
  simp only [checkDepth, bind_apply, get_apply] at h
  cases hlimit : c.config.maxCallDepth with
  | none => rw [hlimit] at h; cases h
  | some limit =>
      rw [hlimit] at h
      dsimp only at h
      split at h
      · next hdepth =>
          cases h
          exact ⟨limit, rfl, hdepth, rfl⟩
      · cases h

theorem beginYield_failed {eval : Evaluator H} {value receiver : Option Value}
    {cls : Option (Ref .module)} {strict : Bool} {c d : Context H} {failure : Failure}
    (h : beginYield eval value receiver cls strict c = .error (.raised (.failure failure)) d) :
    ∃ active, OpeningFailure eval.bind c active failure := by
  cases ht : c.yieldTarget? with
  | none =>
      cases (beginYield_of_none ht eval value receiver cls strict).symm.trans h
      exact ⟨none, .noBlock ht⟩
  | some block =>
      refine ⟨some block, ?_⟩
      rcases beginYield_of_target ht eval value receiver cls strict with ⟨fault, hf⟩ | hactive
      · cases hf.symm.trans h
      rw [beginYield_eq hactive] at h
      obtain ⟨bound, hargs⟩ : ∃ bound, prepareArgs eval block (block.receiverFor receiver cls)
          value strict (c.entering block cls) = .error (.raised (.failure failure)) bound := by
        split at h
        · cases h
        · next hunwound =>
            cases h
            exact unwinding_raised ((Tidy.leaveBlock block c.suspend).raises _) hunwound
      obtain ⟨given, heap, own, rfl, hparams⟩ := prepareArgs_raised hargs
      rcases bindParams_raised hparams with
        ⟨hempty, _, rfl, count, hcount, rfl⟩ | ⟨pattern, item, hpattern, hbind⟩
      · exact .arity cls ht hempty hcount
      · exact .unbound ht hpattern hbind

theorem checkDepth_then_failed {bind : Pattern -> Value -> Value -> Bool -> Run Failure H Unit}
    {next : Unit -> Run Signal H α} (hn : (next ()).Silent) {c d : Context H} {failure : Failure}
    (h : (Run.signalling checkDepth >>= next) c = .error (.raised (.failure failure)) d) :
    OpeningFailure bind c none failure := by
  rcases bind_raised h with hcheck | ⟨_, e, _, hnext⟩
  · obtain ⟨limit, hlimit, hdepth, rfl⟩ := checkDepth_raised (signalling_raised hcheck)
    exact .tooDeep hlimit hdepth
  · exact (hn e _ d hnext).elim

theorem Layer.opening_failed {eval : Evaluator H} {l : Layer H} {c d : Context H}
    {failure : Failure} (h : l.opening eval c = .error (.raised (.failure failure)) d) :
    ∃ active, OpeningFailure eval.bind c active failure := by
  have hsilent : (l.opening eval).Silent -> ∃ active, OpeningFailure eval.bind c active failure :=
    fun hs => (hs c _ d h).elim
  cases l with
  | yield value receiver cls strict =>
      rcases bind_raised h with hbegin | ⟨a, e, _, hpure⟩
      · exact beginYield_failed hbegin
      · cases hpure
  | iterate callback data =>
      refine hsilent (Raises.get.bind fun c => ?_)
      refine ((Tidy.newBlockWithSelf _ _ _).raises _).bind fun block => ?_
      refine ((Tidy.pushMark _).raises _).bind fun _ => ?_
      exact ((Tidy.pushBlock block).raises _).bind fun _ => .pure _
  | withBlock block =>
      refine hsilent (((Tidy.pushMark _).raises _).bind fun _ => ?_)
      exact ((Tidy.pushBlock block).raises _).bind fun _ => .pure _
  | invoke receiver method =>
      refine ⟨none, checkDepth_then_failed ((Tidy.currentMark.raises _).bind fun mark => ?_) h⟩
      refine ((Tidy.pushMark _).raises _).bind fun _ => Raises.get.bind fun c => ?_
      exact ((Tidy.openFrame _).raises _).bind fun _ => .pure _
  | openModule module =>
      refine ⟨none, checkDepth_then_failed ((Tidy.currentMark.raises _).bind fun mark => ?_) h⟩
      refine Raises.get.bind fun c => (Raises.set _).bind fun _ => ?_
      refine ((Tidy.openFrame _).raises _).bind fun _ => ?_
      refine ((Tidy.pushScope _).raises _).bind fun _ => ?_
      refine ((Tidy.pushClass _).raises _).bind fun _ => ?_
      exact ((Tidy.setNamespace _).raises _).bind fun outer => .pure _
  | catchTag tag => cases h

end ExecutionContext
