import ExecutionContext.Proofs.Backtraces
import ExecutionContext.Proofs.Composition
import ExecutionContext.Proofs.Routing

/-! # The origin of a failure

A failure that comes out of a program is one of the host's own, or the context made it where
the program last ran code. The layers between that point and the end of the run hand it on:
it arrives with the backtrace that it got where it was made, and without one if it got none.
-/

namespace ExecutionContext

variable {H : Host} {ε α β σ : Type}

/-! ## Where a failure was made -/

/-- The context made the failure in the scene: it refused an operation, or it did not open a layer
and was maybe in the activation of a block by then. -/
inductive MadeIn (binder : Binder β σ) (scene : Context (Plain β σ)) :
    Option (Block (Plain β σ).Body) -> Failure -> Prop where
  | refused {effects : List Effect} {α : Type} {op : Run Failure (Plain β σ) α}
      {left : Context (Plain β σ)} {failure : Failure} :
      Operation effects op -> op scene = .error (.raised failure) left ->
      failure.backtrace = some scene.backtrace -> MadeIn binder scene none failure
  | unopened {active : Option (Block (Plain β σ).Body)} {failure : Failure} :
      OpeningFailure binder scene active failure -> MadeIn binder scene active failure

namespace MadeIn

variable {binder : Binder β σ} {scene : Context (Plain β σ)} {failure : Failure}

theorem yieldTarget?_eq {block : Block (Plain β σ).Body}
    (h : MadeIn binder scene (some block) failure) : scene.yieldTarget? = some block := by
  cases h with
  | unopened hopening => exact hopening.yieldTarget?_eq

theorem backtrace_eq {active : Option (Block (Plain β σ).Body)}
    (h : MadeIn binder scene active failure) (hb : BindsInPlace binder) :
    failure.backtrace = some (scene.backtraceWithin active) := by
  cases h with
  | refused _ _ htrace => exact htrace
  | unopened hopening => exact hopening.backtrace_eq hb

end MadeIn

def Run.answering (run : Run Failure H α) (answer : α -> Value) : Run Signal H Value := do
  return answer (← run.signalling)

theorem Run.answering_raised {run : Run Failure H α} {answer : α -> Value} {c d : Context H}
    {failure : Failure} (h : run.answering answer c = .error (.raised (.failure failure)) d) :
    run c = .error (.raised failure) d := by
  rcases bind_raised h with hrun | ⟨a, e, _, hpure⟩
  · exact signalling_raised hrun
  · cases hpure

/-- The leaves of a program whose host has these failures of its own: single operations, with
parsers that record no other failures, and code that raises no others. -/
inductive LeafOf (Own : Failure -> Prop) : Run Signal (Plain β σ) Value -> Prop where
  | single {effects : List Effect} {α : Type} {op : Run Failure (Plain β σ) α}
      (answer : α -> Value) : Operation effects op ->
      (∀ parse names failure, op = compile parse -> parse names = .error failure ->
        failure.backtrace.isSome = true -> Own failure) ->
      LeafOf Own (op.answering answer)
  | code {run : Run Signal (Plain β σ) Value} :
      run.Raises (fun signal => ∀ failure, signal = .failure failure -> Own failure) ->
      LeafOf Own run

/-- The failure is the host's own, or was made in the scene of the last point in the journal. -/
def Journal.Explains (Own : Failure -> Prop) (binder : Binder β σ) (journal : Journal β σ)
    (failure : Failure) : Prop :=
  Own failure ∨ ∃ point active, journal.points.getLast? = some point ∧
    MadeIn binder point.scene active failure

def Run.Explained (Own : Failure -> Prop) (binder : Binder β σ)
    (run : Run Signal (Recorded β σ) α) : Prop :=
  ∀ c failure d, run c = .error (.raised (.failure failure)) d ->
    d.host.Explains Own binder failure

section Explained

variable {Own : Failure -> Prop} {binder : Binder β σ}

namespace Run.Explained

theorem of_silent {run : Run Signal (Recorded β σ) α} (h : run.Silent) :
    run.Explained Own binder :=
  fun c _ d hr => (h c _ d hr).elim

theorem bind {γ : Type} {run : Run Signal (Recorded β σ) α}
    {next : α -> Run Signal (Recorded β σ) γ} (h : run.Explained Own binder)
    (hn : ∀ a, (next a).Explained Own binder) : (run >>= next).Explained Own binder := by
  intro c failure e hr
  rcases bind_raised hr with hfirst | ⟨a, d, _, hnext⟩
  · exact h c failure e hfirst
  · exact hn a d failure e hnext

theorem recover {run : Run Signal (Recorded β σ) α}
    {handler : Exit Signal -> Run Signal (Recorded β σ) α}
    (hn : ∀ exit, (handler exit).Explained Own binder) :
    (run.recover handler).Explained Own binder := by
  intro c failure e hr
  unfold Run.recover at hr
  split at hr
  · cases hr
  · cases hr
  · exact hn _ _ failure e hr

end Run.Explained

/-! ## Leaves -/

theorem Run.recorded_raised {run : Run ε (Plain β σ) α} {c d : Context (Recorded β σ)}
    {signal : ε} (h : run.recorded c = .error (.raised signal) d) :
    run c.plain = .error (.raised signal) d.plain ∧ d.host.points = c.host.points := by
  unfold recorded at h
  cases hr : run c.plain with
  | ok a e => rw [hr] at h; cases h
  | error exit e =>
      rw [hr] at h
      cases h
      exact ⟨rfl, rfl⟩

def Context.Noted (c : Context (Recorded β σ)) : Prop :=
  ∃ pending, c.host.points.getLast? = some ⟨c.plain, pending⟩

theorem LeafOf.explained {op : Run Signal (Plain β σ) Value} (h : LeafOf Own op)
    {c d : Context (Recorded β σ)} (hc : c.Noted) {failure : Failure}
    (hr : op.recorded c = .error (.raised (.failure failure)) d) :
    d.host.Explains Own binder failure := by
  obtain ⟨hop, hpoints⟩ := Run.recorded_raised hr
  cases h with
  | code hraises => exact Or.inl (hraises _ _ _ hop failure rfl)
  | single answer hsingle hparser =>
      have hrefused := Run.answering_raised hop
      obtain ⟨pending, hlast⟩ := hc
      rw [← hpoints] at hlast
      rcases (hsingle.recordedBy hrefused).2 with htrace | ⟨parse, names, rfl, hparse, hown⟩
      · exact Or.inr ⟨_, none, hlast, .refused hsingle hrefused htrace⟩
      · exact Or.inl (hparser parse names failure rfl hparse hown)

/-! ## Layers -/

/-- The points in the journal stay the same. -/
def Contract.pointing : Contract (Recorded β σ) where
  Holds _ := True
  Links c d := d.host.points = c.host.points
  Faults _ := True
  refl _ := rfl
  trans h₁ h₂ := h₂.trans h₁

theorem pointing_tolerant : (Contract.pointing : Contract (Recorded β σ)).Tolerant :=
  fun hsteps c _ => Contract.Allows.of_after (fun _ => trivial)
    ⟨trivial, congrArg Journal.points (hsteps.step c).host⟩

/-- Patterns are bound by the binder, and no points are noted meanwhile. -/
structure Evaluator.BindsBy (eval : Evaluator (Recorded β σ)) (binder : Binder β σ) : Prop where
  keeps : ∀ pattern receiver value strict,
    (eval.bind pattern receiver value strict).Keeps Contract.pointing
  raised : ∀ {pattern receiver value strict c own d},
    eval.bind pattern receiver value strict c = .error (.raised own) d ->
      binder pattern receiver value strict c.plain = .error (.raised own) d.plain

theorem OpeningFailure.plain {eval : Evaluator (Recorded β σ)} (hb : eval.BindsBy binder)
    {c : Context (Recorded β σ)} {active : Option (Block (Recorded β σ).Body)} {failure : Failure}
    (h : OpeningFailure eval.bind c active failure) :
    OpeningFailure binder c.plain active failure := by
  cases h with
  | noBlock ht => exact .noBlock ht
  | tooDeep hlimit hdepth => exact .tooDeep hlimit hdepth
  | arity cls ht hparams hcount => exact .arity cls ht hparams hcount
  | @unbound block cls pattern receiver value strict heap own bound ht hparams hbind =>
      have hplain := hb.raised hbind
      exact @OpeningFailure.unbound _ binder c.plain block cls pattern receiver value strict heap
        own bound.plain ht hparams hplain

/-- A layer fails where it does not open, or where its code fails. -/
theorem Layer.around_explained {eval : Evaluator (Recorded β σ)} (hb : eval.BindsBy binder)
    {code : Run Signal (Recorded β σ) Value} {l : Layer (Recorded β σ)}
    (hcode : ∀ c, (l.codeAt eval code c).Explained Own binder) {c d : Context (Recorded β σ)}
    (hc : c.Noted) {failure : Failure}
    (h : l.around eval code c = .error (.raised (.failure failure)) d) :
    d.host.Explains Own binder failure := by
  cases ho : l.opening eval c with
  | error exit e =>
      have hkept := opening_keeps pointing_tolerant hb.keeps l c trivial
      rw [ho] at hkept
      rw [around_eq, Run.bind_of_error ho] at h
      cases h
      obtain ⟨pending, hlast⟩ := hc
      rw [← show d.host.points = c.host.points from hkept.1.2] at hlast
      obtain ⟨active, hopening⟩ := opening_failed ho
      exact Or.inr ⟨_, active, hlast, .unopened (hopening.plain hb)⟩
  | ok close inside =>
      obtain ⟨e, hr, hclose⟩ := rounds_of_around ho h
      obtain ⟨_, f, hf⟩ := rounds_raised hr
      have hhost : d.host = e.host := by
        rw [← Run.after_of_ok hclose]
        exact ((opening_steps ho).step e).host
      rw [hhost]
      exact hcode c f failure e hf

/-! ## Programs -/

/-- An evaluator whose failures are explained by the journal. -/
structure Evaluator.Explained (Own : Failure -> Prop) (binder : Binder β σ)
    (eval : Evaluator (Recorded β σ)) : Prop extends eval.BindsBy binder where
  body : ∀ code receiver args, (eval.runBody code receiver args).Explained Own binder
  callback : ∀ code args data, (eval.runCallback code args data).Explained Own binder

namespace Evaluator.Explained

variable {eval : Evaluator (Recorded β σ)}

theorem watching (he : eval.Explained Own binder) (yielding : Yielding β σ) :
    (eval.watching yielding).Explained Own binder where
  keeps pattern receiver value strict := by
    refine Run.Keeps.bind (fun c _ => ⟨trivial, rfl⟩) fun _ => ?_
    exact he.keeps pattern receiver value strict
  raised := by
    intro pattern receiver value strict c own d hbind
    exact @he.raised pattern receiver value strict (c.journaling
      { c.host with bindings := c.host.bindings ++ [⟨yielding, receiver, c.plain⟩] }) own d hbind
  body code receiver args :=
    .bind (.of_silent (.modifyGet _)) fun _ => he.body code receiver args
  callback code args data :=
    .bind (.of_silent (.modifyGet _)) fun _ => he.callback code args data

theorem runCode (he : eval.Explained Own binder) (code : Code (Numbered β)) (receiver : Value)
    (args : List Value) : (runCode eval code receiver args).Explained Own binder := by
  cases code with
  | body body => exact he.body body receiver args
  | callback body data =>
      exact .bind (.of_silent (.modifyGet _)) fun packed => he.callback body packed data

theorem codeAt (he : eval.Explained Own binder) {code : Run Signal (Recorded β σ) Value}
    (hcode : code.Explained Own binder) (l : Layer (Recorded β σ)) (c : Context (Recorded β σ)) :
    (l.codeAt eval code c).Explained Own binder := by
  cases l with
  | yield value receiver cls strict =>
      simp only [Layer.codeAt]
      cases beginYield eval value receiver cls strict c with
      | error exit d => exact hcode
      | ok a d => exact he.runCode a.block.code a.self a.args
  | _ => exact hcode

end Evaluator.Explained

theorem Program.captureBlock_silent (params : Params) (receiver : Option Value) (body : β) :
    (captureBlock params receiver body : Run Signal (Recorded β σ) Nat).Silent := by
  refine Run.Raises.get.bind fun c => ?_
  cases receiver with
  | some receiver =>
      exact ((Run.Tidy.newBlockWithSelf _ _ _).raises _).bind fun block =>
        Run.Raises.bind (.modifyGet _) fun _ => .pure _
  | none =>
      exact (newBlock_within _ _).silent.bind fun block =>
        Run.Raises.bind (.modifyGet _) fun _ => .pure _

/-- It is enough to explain the failures in contexts that are noted as points. -/
theorem Run.Explained.noting {next : Run Signal (Recorded β σ) Value} (pending : Option Nat)
    (h : ∀ {c failure d}, Context.Noted c ->
      next c = .error (.raised (.failure failure)) d -> d.host.Explains Own binder failure) :
    (do Journal.notePoint pending; next).Explained Own binder := by
  intro c failure d hr
  have hnoted : ((Journal.notePoint pending : Run Signal _ Unit).after c).Noted :=
    ⟨pending, List.getLast?_concat⟩
  exact h hnoted hr

/-- The journal explains every failure of a program whose leaves are the host's. -/
theorem Program.run_explained {eval : Evaluator (Recorded β σ)} (he : eval.Explained Own binder)
    {p : Program β σ} (hp : p.All (LeafOf Own)) (pending : Option Nat) :
    (p.run eval pending).Explained Own binder := by
  have around : ∀ {code : Run Signal (Recorded β σ) Value} {c failure d},
      code.Explained Own binder -> Context.Noted c -> ∀ l : Layer (Recorded β σ),
      l.around eval code c = .error (.raised (.failure failure)) d ->
        d.host.Explains Own binder failure :=
    fun hcode hc l h => Layer.around_explained he.toBindsBy (he.codeAt hcode l) hc h
  have calling : ∀ {body : Run Signal (Recorded β σ) Value} attached,
      body.Explained Own binder -> (do Journal.noteCall attached; body).Explained Own binder :=
    fun _ hbody => .bind (.of_silent (.modifyGet _)) fun _ => hbody
  induction p generalizing pending with
  | perform op => exact .noting pending fun hc hr => hp.explained hc hr
  | andThen first next ihf ihn =>
      exact (ihf hp.1 pending).bind fun value => ihn value (hp.2 value) pending
  | reading next ih => exact .bind (.of_silent .get) fun c => ih c.plain (hp c.plain) pending
  | rescue body handler ihb ihh => exact .recover fun exit => ihh exit (hp.2 exit) pending
  | capture params receiver body next ih =>
      refine .bind (.of_silent (.modifyGet _)) fun _ => ?_
      exact .bind (.of_silent (captureBlock_silent params receiver body)) fun number =>
        ih number (hp number) pending
  | withBlock number call ih =>
      refine .noting pending fun {c failure d} hc hr => ?_
      unfold callNumbered at hr
      rw [Run.bind_of_ok (Run.get_apply c)] at hr
      cases hbirth : c.host.births[number]? with
      | none => rw [hbirth] at hr; cases hr
      | some birth =>
          rw [hbirth] at hr
          exact around (ih hp _) hc (.withBlock birth.block) hr
  | iterate driver callback data ih =>
      refine .noting pending fun {c failure d} hc hr => ?_
      unfold iterateNumbered at hr
      rw [Run.bind_of_ok (noteCallback_eq c callback data)] at hr
      have hborn : ∀ block, (recordingBirth c block).Noted := fun _ => hc
      exact around (ih hp _) (hborn _) (.iterate ⟨c.host.births.length, callback⟩ data) hr
  | yield value receiver cls strict =>
      -- A yield runs the body of a block, so it is given no code.
      have hnone : (Run.exhausted : Run Signal (Recorded β σ) Value).Explained Own binder :=
        .of_silent .exhausted
      refine .noting pending fun {c failure d} hc hr => ?_
      have hw := he.watching ⟨c.plain, receiver, cls⟩
      exact Layer.around_explained hw.toBindsBy
        (hw.codeAt hnone (.yield value receiver cls strict)) hc hr
  | invoke receiver method body ih =>
      exact .noting pending fun hc hr =>
        around (calling pending (ih hp none)) hc (.invoke receiver method) hr
  | openModule module body ih =>
      exact .noting pending fun {c failure d} hc hr =>
        around (calling (c.host.attached? c) (ih hp none)) hc (.openModule module) hr
  | catchTag tag body ih =>
      exact .noting pending fun hc hr => around (ih hp pending) hc (.catchTag tag) hr

theorem Codebase.evaluator_bindsBy (code : Codebase β σ) (binder : Binder β σ) (depth : Nat) :
    (code.evaluator binder depth).BindsBy binder where
  keeps pattern receiver value strict := by
    intro c _
    rw [evaluator_bind]
    unfold Run.recorded
    cases binder pattern receiver value strict c.plain with
    | ok a d => exact ⟨trivial, rfl⟩
    | error exit d => exact ⟨⟨trivial, rfl⟩, fun _ _ => trivial⟩
  raised := by
    intro pattern receiver value strict c own d h
    rw [evaluator_bind] at h
    exact (Run.recorded_raised h).1

/-- However deep activations nest, the journal explains the failures in them. -/
theorem Codebase.evaluator_explained {code : Codebase β σ} (hcode : code.All (LeafOf Own))
    (binder : Binder β σ) (depth : Nat) :
    (code.evaluator binder depth).Explained Own binder := by
  induction depth with
  | zero =>
      exact ⟨code.evaluator_bindsBy binder 0, fun _ _ _ => .of_silent .exhausted,
        fun _ _ _ => .of_silent .exhausted⟩
  | succ depth ih =>
      exact ⟨code.evaluator_bindsBy binder (depth + 1),
        fun _ _ _ => Program.run_explained ih (hcode.1 _ _ _) none,
        fun _ _ _ => Program.run_explained ih (hcode.2 _ _ _) none⟩

end Explained

/-! ## The way out -/

theorem failure_ignored (levels : List (Level H)) (heap : Heap) (failure : Failure) :
    Ignored levels heap (.raised (.failure failure)) := by
  rintro level _ _ ⟨⟩
  exact level.layer.rule_failure heap failure

theorem Reaches.failure_handed {inner run : Run Signal H Value} {point c d e : Context H}
    {levels : List (Level H)} {failure : Failure} (h : Reaches inner point levels run c)
    (hinner : inner point = .error (.raised (.failure failure)) d)
    (hclose : closeAll levels d = .ok () e) : run c = .error (.raised (.failure failure)) e := by
  rw [h.run_eq, hinner]
  exact ending_ignored h.underWay hclose (failure_ignored levels d.heap failure)

/-- A nest hands a failure on unchanged, unless a closing meets a broken stack. -/
theorem Reaches.failure_arrives {inner run : Run Signal H Value} {point c d : Context H}
    {levels : List (Level H)} {failure : Failure} (h : Reaches inner point levels run c)
    (hinner : inner point = .error (.raised (.failure failure)) d) :
    (∃ e, closeAll levels d = .ok () e ∧ run c = .error (.raised (.failure failure)) e) ∨
      Faulted (run c) := by
  rcases closeAll_or_faulted h.underWay (failure_ignored levels d.heap failure) with
    ⟨e, hclose⟩ | hfaulted
  · exact Or.inl ⟨e, hclose, h.failure_handed hinner hclose⟩
  · rw [h.run_eq, hinner]
    exact Or.inr hfaulted

/-! ## The main result -/

/-- A failure is recorded among the frames that are there when the context refuses, and no layer
that it passes on its way out changes that. -/
theorem failures_keep_origin :
    -- A backtrace names all frames, innermost first, and in the activation of a block that is the
    -- block's own; a failure gets at most one.
    (∀ {H : Host} (c : Context H) (failure : Failure),
      c.backtrace = c.frames.entries.map
        (fun frame => (c.frameCells.read frame).method.getD "<main>") ∧
      c.backtrace.length = c.frames.depth ∧ c.backtraceWithin none = c.backtrace ∧
      (∀ block cls, (c.entering block cls).frames = c.frames.push block.frame ∧
        (c.entering block cls).backtrace = c.backtraceWithin (some block)) ∧
      (c.attach failure).cause = failure.cause ∧
      (c.attach failure).backtrace = some (failure.backtrace.getD c.backtrace)) ∧
    -- A refused operation is recorded where it was called.
    (∀ {H : Host} {effects : List Effect} {α : Type} {op : Run Failure H α} {c d : Context H}
        {failure : Failure}, Operation effects op -> op c = .error (.raised failure) d ->
        d.framing = c.framing ∧ failure.RecordedBy op c) ∧
    -- So is a layer that does not open, unless the arguments do not fit the block it yields to.
    (∀ {H : Host} {eval : Evaluator H} {l : Layer H} {c d : Context H} {failure : Failure},
      l.opening eval c = .error (.raised (.failure failure)) d ->
        ∃ active, OpeningFailure eval.bind c active failure ∧
          (∀ block ∈ active, c.yieldTarget? = some block) ∧
          (BindsInPlace eval.bind -> failure.backtrace = some (c.backtraceWithin active))) ∧
    -- A program makes no other failures, and what arrives is what was made at the last point.
    (∀ {β σ : Type} {Own : Failure -> Prop} {codebase : Codebase β σ} {program : Program β σ},
      codebase.All (LeafOf Own) -> program.All (LeafOf Own) ->
      ∀ {binder depth pending c d failure},
        program.run (codebase.evaluator binder depth) pending c =
          .error (.raised (.failure failure)) d ->
        Own failure ∨ ∃ point active, d.host.points.getLast? = some point ∧
          MadeIn binder point.scene active failure ∧
          (∀ block ∈ active, point.scene.yieldTarget? = some block) ∧
          (BindsInPlace binder ->
            failure.backtrace = some (point.scene.backtraceWithin active))) ∧
    (∀ {β σ : Type}, BindsInPlace (Binder.default : Binder β σ)) ∧
    -- A failure raised at the innermost point of any nest comes out unchanged.
    ∀ {H : Host} {inner run : Run Signal H Value} {point c d : Context H}
      {levels : List (Level H)} {failure : Failure},
      Reaches inner point levels run c ->
      inner point = .error (.raised (.failure failure)) d ->
        ((∃ e, closeAll levels d = .ok () e ∧ run c = .error (.raised (.failure failure)) e) ∨
          Faulted (run c)) ∧
        ∀ {F : Fault -> Prop}, c.Based ->
          (∀ level ∈ levels, ∀ pattern receiver value strict,
            (level.eval.bind pattern receiver value strict).Keeps (Contract.balanced F)) ->
          KeptDownTo point c levels -> point.SameStacks d ->
            run c = .error (.raised (.failure failure)) (giveBackAll levels d) ∧
              c.SameStacks (giveBackAll levels d) := by
  refine ⟨?_, ?_, ?_, ?_, ?_, ?_⟩
  · intro H c failure
    exact ⟨rfl, c.length_backtrace, rfl, fun block cls => ⟨rfl, c.backtrace_entering block cls⟩,
      failure.attach_cause _, failure.backtrace_attach _⟩
  · intro H effects α op c d failure hop hr
    exact hop.recordedBy hr
  · intro H eval l c d failure h
    obtain ⟨active, hopening⟩ := l.opening_failed h
    refine ⟨active, hopening, ?_, hopening.backtrace_eq⟩
    rintro block ⟨⟩
    exact hopening.yieldTarget?_eq
  · intro β σ Own codebase program hcode hp binder depth pending c d failure h
    have he := Codebase.evaluator_explained hcode binder depth
    refine (Program.run_explained he hp pending c failure d h).imp_right ?_
    rintro ⟨point, active, hlast, hmade⟩
    refine ⟨point, active, hlast, hmade, ?_, hmade.backtrace_eq⟩
    rintro block ⟨⟩
    exact hmade.yieldTarget?_eq
  · exact fun pattern _ value strict => bindDynamic_locates pattern value strict
  · intro H inner run point c d levels failure hreach hinner
    refine ⟨hreach.failure_arrives hinner, fun {F} hc hb hk hd => ?_⟩
    obtain ⟨hclose, hsame⟩ := closeAll_eq hreach.underWay hb hc hk hd
    exact ⟨hreach.failure_handed hinner (hclose [] levels rfl), hsame⟩

/-- A codebase whose innermost block calls a method that yields an item to a block that takes
none. -/
def Codebase.crowding : Codebase Nat Unit where
  body := fun code _ _ =>
    match code with
    | 0 => .andThen (.perform (newArray [.nil])) fun items =>
        .capture .empty none 0 fun number =>
          .withBlock number (.invoke .nil "pick" (.yield (some items) none none true))
    | code + 1 => .yieldingOnce code
  callback := fun _ _ _ => .perform (return .nil)

theorem Codebase.crowding_leaves : Codebase.crowding.All (LeafOf fun _ => False) := by
  refine ⟨fun body receiver args => ?_, fun body args data => .code (.pure _)⟩
  cases body with
  | succ code => exact fun number => trivial
  | zero => exact ⟨.code (.modifyGet _), fun items number => trivial⟩

/-- A call in a block of a call, inside a catch: a block of the innermost call is the one that
fails. -/
def crowdingNested : Run Signal (Recorded Nat Unit) Value :=
  (Program.catchTag .nil (.yieldingOnce 1)).run (Codebase.crowding.evaluator .default 3) none

def Run.failure? (run : Run Signal H α) (c : Context H) : Option Failure :=
  match run c with
  | .error (.raised (.failure failure)) _ => some failure
  | _ => none

theorem Run.eq_error_of_failure? {run : Run Signal H α} {c : Context H} {failure : Failure}
    (h : run.failure? c = some failure) :
    run c = .error (.raised (.failure failure)) (run.after c) := by
  unfold failure? at h
  unfold after
  split at h
  · next hr =>
      cases h
      rw [hr]
  · cases h

/-- The failure of the innermost block arrives with its own frame on top of the six of its origin, a
refused change of the safe level and a missing block are recorded at once, and what a body
raises without a backtrace comes out without one. -/
theorem failures_keep_origin_nested :
    let start : Context (Recorded Nat Unit) := Codebase.starting {} .silent () 0
    let names := ["<main>", "pick", "<main>", "each", "<main>", "each", "<main>"]
    let stop : Failure := { cause := .raised "stop" }
    (∃ d point block, crowdingNested start = .error (.raised (.failure
        { cause := .wrongArguments 0 1, backtrace := some names })) d ∧
      d.host.points.getLast? = some point ∧ point.scene.frames.depth = 6 ∧
      point.scene.yieldTarget? = some block ∧
      point.scene.backtraceWithin (some block) = names) ∧
    (∃ failure, (setSafeLevel 3 : Run Failure Bare Unit) Context.secured =
        .error (.raised failure) Context.secured ∧
      failure.RecordedBy (setSafeLevel 3) Context.secured) ∧
    (∃ failure d active, (Layer.yield none none none false).opening (.raising .next) Context.bare =
        .error (.raised (.failure failure)) d ∧
      OpeningFailure (Evaluator.raising .next).bind Context.bare active failure) ∧
    ∃ e, yieldRaising (.failure stop) Context.bare = .error (.raised (.failure stop)) e ∧
      Context.bare.SameStacks e := by
  intro start names stop
  obtain ⟨-, hrefused, hopening, hprogram, hplace, harrives⟩ := failures_keep_origin
  refine ⟨?_, ?_, ?_, ?_⟩
  · have hrun := Run.eq_error_of_failure? (show crowdingNested.failure? start =
      some { cause := .wrongArguments 0 1, backtrace := some names } by decide +kernel)
    have hdepth : (crowdingNested.after start).host.points.getLast?.map
        (fun point => point.scene.frames.depth) = some 6 := by decide +kernel
    have hleaves : (Program.catchTag .nil (.yieldingOnce 1)).All (LeafOf fun _ => False) :=
      fun _ => trivial
    obtain hnone | ⟨point, active, hlast, _, hactive, htrace⟩ :=
      hprogram Codebase.crowding_leaves hleaves hrun
    · exact hnone.elim
    · rw [hlast] at hdepth
      obtain hdepth : point.scene.frames.depth = 6 := Option.some.inj hdepth
      obtain hnames : names = point.scene.backtraceWithin active := Option.some.inj (htrace hplace)
      cases active with
      | some block => exact ⟨_, point, block, hrun, hlast, hdepth, hactive block rfl, hnames.symm⟩
      | none =>
          -- Without the frame of a block on top there would be six names.
          have hlength := congrArg List.length hnames
          rw [point.scene.length_backtraceWithin, hdepth] at hlength
          cases hlength
  · have hbelow : 3 < Context.secured.safeLevel := by decide
    have hlowered := setSafeLevel_refused hbelow
    exact ⟨_, hlowered, (hrefused (.setSafeLevel 3) hlowered).2⟩
  · have hnone : Context.bare.yieldTarget? = none := by decide +kernel
    have hopen : (Layer.yield none none none false).opening (.raising .next) Context.bare =
        .error (.raised (.failure (Context.bare.attach { cause := .noBlockGiven }))) Context.bare :=
      Run.bind_of_error (beginYield_of_none hnone _ _ _ _ _)
    obtain ⟨active, hfailed, _⟩ := hopening hopen
    exact ⟨_, _, active, hopen, hfailed⟩
  · obtain ⟨hreach, hbind, hkept⟩ := levelsRaising_nest (.failure stop)
    exact ⟨_, (harrives hreach rfl).2 Context.based_bare hbind hkept (.refl _)⟩

end ExecutionContext
