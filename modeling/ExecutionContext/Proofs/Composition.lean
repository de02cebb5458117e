import ExecutionContext.Proofs.Balance
import ExecutionContext.Proofs.Escape
import ExecutionContext.Proofs.Operations

/-! # Runs composed of operations

A run of operations performs single ones and the six that run code, nested in any way,
with code that may look at the context, keep a state of its own, raise and rescue. When
a contract allows every step that single operations may take, it is kept by the six
around code that keeps it, whatever the context they are called in.
-/

namespace ExecutionContext

variable {H : Host} {ε α : Type}

/-! ## Contracts that allow every step -/

namespace Run.Keeps

variable {K : Contract H}

theorem restoring {restore : Run ε H Unit} (hr : restore.Keeps K) {exit : Exit ε}
    {c d : Context H} (h : K.Allows c (.error exit d : EStateM.Result (Exit ε) (Context H) α)) :
    K.Allows c (match restore d with
      | .ok _ e => (.error exit e : EStateM.Result (Exit ε) (Context H) α)
      | .error other e => .error other e) := by
  have hrestore := (hr d h.1.1).of_links h.1.2
  cases hy : restore d with
  | ok _ e =>
      rw [hy] at hrestore
      exact ⟨hrestore, h.2⟩
  | error other e =>
      rw [hy] at hrestore
      exact hrestore

theorem ensuring {run : Run ε H α} {restore : Run ε H Unit} (h : run.Keeps K)
    (hr : restore.Keeps K) : (run.ensuring restore).Keeps K := by
  intro c hc
  have hrun := h c hc
  unfold Run.ensuring
  cases hx : run c with
  | ok a d =>
      rw [hx] at hrun
      have hrestore := (hr d hrun.1).of_links hrun.2
      cases hy : restore d with
      | ok _ e => rw [hy] at hrestore; simp only [hy]; exact hrestore
      | error exit e => rw [hy] at hrestore; simp only [hy]; exact hrestore
  | error exit d =>
      rw [hx] at hrun
      exact restoring hr hrun

theorem unwinding {run : Run ε H α} {restore : Run ε H Unit} (h : run.Keeps K)
    (hr : restore.Keeps K) : (run.unwinding restore).Keeps K := by
  intro c hc
  have hrun := h c hc
  unfold Run.unwinding
  cases hx : run c with
  | ok a d => rw [hx] at hrun; exact hrun
  | error exit d =>
      rw [hx] at hrun
      exact restoring hr hrun

end Run.Keeps

/-- Every run that takes only the steps of single operations keeps the contract. -/
def Contract.Tolerant (K : Contract H) : Prop :=
  ∀ {ε α : Type} {run : Run ε H α}, run.Steps -> run.Keeps K

section Tolerant

variable {K : Contract H} {eval : Evaluator H} {code : Run Signal H Value}

namespace Layer

theorem opening_keeps (hK : K.Tolerant)
    (hb : ∀ pattern receiver value strict, (eval.bind pattern receiver value strict).Keeps K)
    (l : Layer H) : (l.opening eval).Keeps K := by
  cases l with
  | yield value receiver cls strict =>
      refine Run.Keeps.bind (Run.Keeps.get.bind fun c => ?_) fun a => .pure _
      split
      · exact hK (.of_looks (.signalling (.failWith _)))
      · refine (hK (enterBlock_steps cls)).bind fun entered => ?_
        refine Run.Keeps.bind (Run.Keeps.unwinding ?_ (hK (leaveBlock_steps _ _))) fun args => ?_
        · exact Run.Keeps.prepareArgs (hK (newArray_steps [])) hb _ _ value strict
        · exact (hK (Operation.pushMark _).steps).bind fun _ => .pure _
  | iterate callback data =>
      refine Run.Keeps.get.bind fun c => ?_
      refine (hK (Operation.newBlockWithSelf _ _ _).steps).bind fun block => ?_
      refine (hK (Operation.pushMark _).steps).bind fun _ => ?_
      exact (hK (Operation.pushBlock block).steps).bind fun _ => .pure _
  | withBlock block =>
      refine (hK (Operation.pushMark _).steps).bind fun _ => ?_
      exact (hK (Operation.pushBlock block).steps).bind fun _ => .pure _
  | invoke receiver method =>
      refine (hK (.of_looks (.signalling .checkDepth))).bind fun _ => ?_
      refine (hK (.of_looks .currentMark)).bind fun mark => ?_
      refine (hK (Operation.pushMark _).steps).bind fun _ => ?_
      exact Run.Keeps.get.bind fun c => (hK (openFrame_steps _)).bind fun _ => .pure _
  | openModule module =>
      refine (hK (.of_looks (.signalling .checkDepth))).bind fun _ => ?_
      refine (hK (.of_looks .currentMark)).bind fun mark => ?_
      intro c hc
      have hlevels : (modify fun d => { d with levels := (c.innerNamespace module).2 } :
          Run Signal H Unit).Steps := .modifyGet fun _ => .of_fixture rfl
      have hset := hK hlevels c hc
      rw [Run.bind_of_ok (Run.get_apply c)]
      refine Contract.Allows.bind hset fun _ => (hK (openFrame_steps _)).bind fun _ => ?_
      refine (hK (Operation.pushScope _).steps).bind fun _ => ?_
      refine (hK (Operation.pushClass _).steps).bind fun _ => ?_
      exact (hK (Operation.setNamespace _).steps).bind fun outer => .pure _
  | catchTag tag => exact .pure _

/-- Closing an opened layer takes only steps of single operations. -/
theorem opening_steps {l : Layer H} {c inside : Context H} {close : Run Signal H Unit}
    (h : l.opening eval c = .ok close inside) : close.Steps := by
  have hdetach : (detachBlock : Run Signal H Unit).Steps :=
    Operation.popBlock.steps.bind fun _ => Operation.popMark.steps.bind fun _ => .pure ()
  have answers : (l.opening eval).Answers Run.Steps := by
    cases l with
    | yield value receiver cls strict =>
        exact .bind fun a => .pure (Operation.popMark.steps.bind fun _ => leaveBlock_steps _ _)
    | iterate callback data =>
        exact .bind fun c => .bind fun block => .bind fun _ => .bind fun _ => .pure hdetach
    | withBlock block => exact .bind fun _ => .bind fun _ => .pure hdetach
    | invoke receiver method =>
        refine .bind fun _ => .bind fun mark => .bind fun _ => .bind fun c => .bind fun _ => ?_
        exact .pure (Operation.popFrame.steps.bind fun _ =>
          Operation.popMark.steps.bind fun _ => .pure ())
    | openModule module =>
        refine .bind fun _ => .bind fun mark => .bind fun c => .bind fun _ => .bind fun _ => ?_
        refine .bind fun _ => .bind fun _ => .bind fun outer => .pure ?_
        refine (Operation.setNamespace outer).steps.bind fun _ => ?_
        refine Operation.popClass.steps.bind fun _ => ?_
        exact Operation.popScope.steps.bind fun _ => Operation.popFrame.steps.bind fun _ => .pure ()
    | catchTag tag => exact .pure (.pure ())
  exact answers c close inside h

theorem around_keeps (hK : K.Tolerant) (he : eval.Keeps K) (hcode : code.Keeps K)
    (l : Layer H) : (l.around eval code).Keeps K := by
  intro c hc
  have hopening := opening_keeps hK he.bind l c hc
  rw [around_eq]
  cases ho : l.opening eval c with
  | error exit d =>
      rw [ho] at hopening
      rw [Run.bind_of_error ho]
      exact hopening
  | ok close inside =>
      rw [ho] at hopening
      rw [Run.bind_of_ok ho]
      have hat := codeAt_keeps he (fun args => hK (packArgs_steps args)) hcode c l
      have hall := (rounds_keeps hat eval.limit l).ensuring (hK (opening_steps ho))
      exact (hall inside hopening.1).of_links hopening.2

end Layer

end Tolerant

/-! ## Composed runs -/

/-- The run, with another signal in the place of each that it raises. -/
def Run.translating {ε' : Type} (convert : Context H -> ε -> ε') (run : Run ε H α) :
    Run ε' H α := fun c =>
  match run c with
  | .ok a d => .ok a d
  | .error (.raised signal) d => .error (.raised (convert d signal)) d
  | .error (.fault fault) d => .error (.fault fault) d
  | .error .exhausted d => .error .exhausted d

theorem Run.Keeps.translating {ε' : Type} {K : Contract H} {run : Run ε H α} (h : run.Keeps K)
    (convert : Context H -> ε -> ε') : (run.translating convert).Keeps K := by
  intro c hc
  have hrun := h c hc
  unfold Run.translating
  cases hr : run c with
  | ok a d =>
      rw [hr] at hrun
      exact hrun
  | error exit d =>
      rw [hr] at hrun
      cases exit with
      | raised signal => exact ⟨hrun.1, fun _ hx => by cases hx⟩
      | fault fault => exact ⟨hrun.1, fun _ hx => by cases hx; exact hrun.2 fault rfl⟩
      | exhausted => exact ⟨hrun.1, fun _ hx => by cases hx⟩

variable {β σ : Type}

/-- A run of operations by a host that keeps a journal. What the code of blocks does, and what the
binder does, are composed runs as well. -/
inductive Composed : {ε α : Type} -> Run ε (Recorded β σ) α -> Prop where
  | operation {ε α : Type} {effects : List Effect} {run : Run ε (Recorded β σ) α} :
      Operation effects run -> Composed run
  | answer {ε α : Type} (a : α) : Composed (pure a : Run ε (Recorded β σ) α)
  | raise {ε α : Type} (signal : ε) : Composed (Run.raise signal : Run ε (Recorded β σ) α)
  | panic {ε α : Type} (fault : Fault) :
      Composed (Run.ofFault (.error fault) : Run ε (Recorded β σ) α)
  | exhausted {ε α : Type} : Composed (Run.exhausted : Run ε (Recorded β σ) α)
  -- Look at the context, note it as a point of the run, or change the host's own state.
  | reading {ε : Type} : Composed (get : Run ε (Recorded β σ) _)
  | note {ε : Type} : Composed (Journal.notePoint none : Run ε (Recorded β σ) Unit)
  | remember {ε : Type} (change : Context (Recorded β σ) -> σ) :
      Composed (modify fun c => { c with host := { c.host with own := change c } } :
        Run ε (Recorded β σ) Unit)
  | andThen {ε α γ : Type} {run : Run ε (Recorded β σ) α} {next : α -> Run ε (Recorded β σ) γ} :
      Composed run -> (∀ a, Composed (next a)) -> Composed (run >>= next)
  | rescue {ε α : Type} {run : Run ε (Recorded β σ) α}
      {handler : Exit ε -> Run ε (Recorded β σ) α} :
      Composed run -> (∀ exit, Composed (handler exit)) -> Composed (run.recover handler)
  | translating {ε ε' α : Type} {run : Run ε (Recorded β σ) α}
      (convert : Context (Recorded β σ) -> ε -> ε') :
      Composed run -> Composed (run.translating convert)
  | around {eval : Evaluator (Recorded β σ)} {code : Run Signal (Recorded β σ) Value}
      (l : Layer (Recorded β σ)) :
      (∀ body receiver args, Composed (eval.runBody body receiver args)) ->
      (∀ body args data, Composed (eval.runCallback body args data)) ->
      (∀ pattern receiver value strict, Composed (eval.bind pattern receiver value strict)) ->
      Composed code -> Composed (l.around eval code)

/-- A composed run keeps what single operations and the host's own steps keep. -/
theorem Composed.keeps {K : Contract (Recorded β σ)} (hK : K.Tolerant)
    (hnote : ∀ {ε : Type}, (Journal.notePoint none : Run ε (Recorded β σ) Unit).Keeps K)
    (hremember : ∀ {ε : Type} (change : Context (Recorded β σ) -> σ),
      (modify fun c => { c with host := { c.host with own := change c } } :
        Run ε (Recorded β σ) Unit).Keeps K)
    {run : Run ε (Recorded β σ) α} (h : Composed run) : run.Keeps K := by
  induction h with
  | operation hop => exact hK hop.steps
  | answer a => exact .pure a
  | raise signal => exact .raise signal
  | panic fault => exact hK (.of_looks (.ofFault _))
  | exhausted => exact .exhausted
  | reading => exact .get
  | note => exact hnote
  | remember change => exact hremember change
  | andThen _ _ ihrun ihnext => exact ihrun.bind ihnext
  | rescue _ _ ihrun ihhandler => exact ihrun.recover ihhandler
  | translating convert _ ih => exact ih.translating convert
  | around l _ _ _ _ ihbody ihcallback ihbind ihcode =>
      exact l.around_keeps hK ⟨ihbody, ihcallback, ihbind⟩ ihcode

/-! ## The contexts that a run shows -/

def Context.scenes (c : Context (Recorded β σ)) : List (Context (Plain β σ)) :=
  c.host.points.map Point.scene ++ [c.plain]

/-- The contexts that a run shows: the one it is given, those it notes, and the one it leaves. -/
def Run.scenes (run : Run ε (Recorded β σ) α) (c : Context (Recorded β σ)) :
    List (Context (Plain β σ)) :=
  (Run.after (Journal.notePoint none >>= fun _ => run) c).scenes

def Contract.showing (P : Context (Plain β σ) -> Prop) : Contract (Recorded β σ) where
  Holds c := ∀ scene ∈ c.scenes, P scene
  Links _ _ := True
  Faults _ := True
  refl _ := trivial
  trans _ _ := trivial

theorem Context.forall_scenes_iff {P : Context (Plain β σ) -> Prop}
    {c : Context (Recorded β σ)} :
    (∀ scene ∈ c.scenes, P scene) ↔ (∀ point ∈ c.host.points, P point.scene) ∧ P c.plain := by
  simp only [Context.scenes, List.forall_mem_append, List.forall_mem_map,
    List.forall_mem_singleton]

/-- A step that leaves the host's own state alone is one of the context without its journal. -/
theorem Context.Step.plain {c d : Context (Recorded β σ)} (h : c.Step d) :
    c.plain.Step d.plain where
  level := h.level
  host := congrArg Journal.own h.host
  config := h.config
  base hc := by
    obtain ⟨hstarted, htop, hframes, hmarks, hblocks, hscopes⟩ := h.base hc
    exact ⟨hstarted, htop, hframes, hmarks, hblocks, hscopes⟩

/-- A property that every step keeps, and that does not depend on the host's own state, is one of
all contexts that a composed run shows. -/
theorem Composed.forall_scenes {P : Context (Plain β σ) -> Prop}
    (hstep : ∀ {c d : Context (Plain β σ)}, c.Step d -> P c -> P d)
    (hown : ∀ {c : Context (Plain β σ)} own, P c -> P { c with host := own })
    {run : Run ε (Recorded β σ) α} (hrun : Composed run) {c : Context (Recorded β σ)}
    (hpoints : c.host.points = []) (hc : P c.plain) : ∀ scene ∈ run.scenes c, P scene := by
  have htolerant : (Contract.showing P).Tolerant := by
    intro ε α run hsteps c hc
    obtain ⟨hbefore, hnow⟩ := Context.forall_scenes_iff.mp hc
    have hpoints := congrArg Journal.points (hsteps.step c).host
    have hafter : ∀ scene ∈ (run.after c).scenes, P scene := by
      refine Context.forall_scenes_iff.mpr ⟨?_, hstep (hsteps.step c).plain hnow⟩
      rw [hpoints]
      exact hbefore
    exact Contract.Allows.of_after (fun _ => trivial) ⟨hafter, trivial⟩
  have hnote : ∀ {ε : Type},
      (Journal.notePoint none : Run ε (Recorded β σ) Unit).Keeps (.showing P) := by
    intro ε c hc
    obtain ⟨hbefore, hnow⟩ := Context.forall_scenes_iff.mp hc
    refine ⟨Context.forall_scenes_iff.mpr ⟨?_, hnow⟩, trivial⟩
    refine List.forall_mem_append.mpr ⟨hbefore, ?_⟩
    exact List.forall_mem_singleton.mpr hnow
  have hremember : ∀ {ε : Type} (change : Context (Recorded β σ) -> σ),
      (modify fun c => { c with host := { c.host with own := change c } } :
        Run ε (Recorded β σ) Unit).Keeps (.showing P) := by
    intro ε change c hc
    obtain ⟨hbefore, hnow⟩ := Context.forall_scenes_iff.mp hc
    exact ⟨Context.forall_scenes_iff.mpr ⟨hbefore, hown (change c) hnow⟩, trivial⟩
  have hinitial : (Contract.showing P).Holds c := by
    refine Context.forall_scenes_iff.mpr ⟨?_, hc⟩
    rw [hpoints]
    exact fun _ h => absurd h List.not_mem_nil
  have hkeeps := Run.Keeps.bind (hnote (ε := ε)) fun _ =>
    hrun.keeps htolerant hnote hremember
  exact (hkeeps c hinitial).after.1

end ExecutionContext
