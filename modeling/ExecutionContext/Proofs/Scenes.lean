import ExecutionContext.Proofs.Binding
import ExecutionContext.Proofs.Composition

/-! # The scenes of a program's run

Every record of a run shows a scene: the context at a point, and those in which a call,
a pass through a block and the life of a block began. A property that every step of a
single operation keeps is one of all scenes, when the operations at the leaves of the
program keep it as well.
-/

namespace ExecutionContext

variable {H : Host} {ε α β σ : Type}

def Journal.scenes (journal : Journal β σ) : List (Context (Plain β σ)) :=
  journal.points.map Point.scene ++ journal.calls.map Call.scene ++
    journal.births.map Birth.scene ++ journal.passes.map Pass.scene

theorem Journal.mem_scenes_iff {journal : Journal β σ} {scene : Context (Plain β σ)} :
    scene ∈ journal.scenes ↔
      (∃ point ∈ journal.points, point.scene = scene) ∨
      (∃ call ∈ journal.calls, call.scene = scene) ∨
      (∃ birth ∈ journal.births, birth.scene = scene) ∨
      ∃ pass ∈ journal.passes, pass.scene = scene := by
  simp only [Journal.scenes, List.mem_append, List.mem_map, or_assoc]

section Members

variable {journal : Journal β σ}

theorem Journal.mem_scenes_of_point {point : Point β σ} (h : point ∈ journal.points) :
    point.scene ∈ journal.scenes :=
  mem_scenes_iff.mpr (Or.inl ⟨point, h, rfl⟩)

theorem Journal.mem_scenes_of_call {call : Call β σ} (h : call ∈ journal.calls) :
    call.scene ∈ journal.scenes :=
  mem_scenes_iff.mpr (Or.inr (Or.inl ⟨call, h, rfl⟩))

theorem Journal.mem_scenes_of_birth {birth : Birth β σ} (h : birth ∈ journal.births) :
    birth.scene ∈ journal.scenes :=
  mem_scenes_iff.mpr (Or.inr (Or.inr (Or.inl ⟨birth, h, rfl⟩)))

theorem Journal.mem_scenes_of_pass {pass : Pass β σ} (h : pass ∈ journal.passes) :
    pass.scene ∈ journal.scenes :=
  mem_scenes_iff.mpr (Or.inr (Or.inr (Or.inr ⟨pass, h, rfl⟩)))

end Members

/-- The later journal shows the given scene, and else no other than the earlier one. -/
structure Journal.Shows (old new : Journal β σ) (scene : Context (Plain β σ)) : Prop where
  points : ∀ point ∈ new.points, point ∈ old.points ∨ point.scene = scene
  calls : ∀ call ∈ new.calls, call ∈ old.calls ∨ call.scene = scene
  births : ∀ birth ∈ new.births, birth ∈ old.births ∨ birth.scene = scene
  passes : ∀ pass ∈ new.passes, pass ∈ old.passes ∨ pass.scene = scene

namespace Journal.Shows

variable {old new : Journal β σ} {scene other : Context (Plain β σ)}

theorem refl (journal : Journal β σ) (scene : Context (Plain β σ)) : journal.Shows journal scene :=
  ⟨fun _ => Or.inl, fun _ => Or.inl, fun _ => Or.inl, fun _ => Or.inl⟩

theorem mem_scenes (h : old.Shows new scene) (hother : other ∈ new.scenes) :
    other ∈ old.scenes ∨ other = scene := by
  simp only [mem_scenes_iff] at hother ⊢
  rcases hother with ⟨point, hm, rfl⟩ | ⟨call, hm, rfl⟩ | ⟨birth, hm, rfl⟩ | ⟨pass, hm, rfl⟩
  · exact (h.points point hm).imp_left fun hold => Or.inl ⟨point, hold, rfl⟩
  · exact (h.calls call hm).imp_left fun hold => Or.inr (Or.inl ⟨call, hold, rfl⟩)
  · exact (h.births birth hm).imp_left fun hold => Or.inr (Or.inr (Or.inl ⟨birth, hold, rfl⟩))
  · exact (h.passes pass hm).imp_left fun hold => Or.inr (Or.inr (Or.inr ⟨pass, hold, rfl⟩))

/-! One more record shows its own scene. -/

theorem of_snoc {list : List α} {last : α} (view : α -> Context (Plain β σ)) :
    ∀ a ∈ list ++ [last], a ∈ list ∨ view a = view last := by
  intro a ha
  rcases List.mem_append.mp ha with hold | hlast
  · exact Or.inl hold
  · exact Or.inr (congrArg view (List.mem_singleton.mp hlast))

theorem point (journal : Journal β σ) (point : Point β σ) :
    journal.Shows { journal with points := journal.points ++ [point] } point.scene :=
  { refl journal point.scene with points := of_snoc Point.scene }

theorem call (journal : Journal β σ) (call : Call β σ) :
    journal.Shows { journal with calls := journal.calls ++ [call] } call.scene :=
  { refl journal call.scene with calls := of_snoc Call.scene }

theorem birth (journal : Journal β σ) (birth : Birth β σ) :
    journal.Shows { journal with births := journal.births ++ [birth] } birth.scene :=
  { refl journal birth.scene with births := of_snoc Birth.scene }

theorem pass (journal : Journal β σ) (pass : Pass β σ) :
    journal.Shows { journal with passes := journal.passes ++ [pass] } pass.scene :=
  { refl journal pass.scene with passes := of_snoc Pass.scene }

end Journal.Shows

theorem bindDynamic_steps (pattern : Pattern) (value : Value) (strict : Bool) :
    (bindDynamic pattern value strict : Run Failure H Unit).Steps := by
  rw [← bindDynamicBy_setDynamic]
  exact bindDynamicBy_keeps (fun name _ value => (Operation.setDynamic name value).steps)
    newArray_steps value strict

/-! ## Properties of all scenes -/

def Contract.picturing (P : Context (Plain β σ) -> Prop) : Contract (Recorded β σ) where
  Holds c := P c.plain ∧ ∀ scene ∈ c.host.scenes, P scene
  Links _ _ := True
  Faults _ := True
  refl _ := trivial
  trans _ _ := trivial

section Picturing

variable {P : Context (Plain β σ) -> Prop} {eval : Evaluator (Recorded β σ)}

theorem picturing_tolerant (hstep : ∀ {c d : Context (Plain β σ)}, c.Step d -> P c -> P d) :
    (Contract.picturing P).Tolerant := by
  intro ε α run hsteps c hc
  have hscenes : (run.after c).host.scenes = c.host.scenes :=
    congrArg Journal.scenes (hsteps.step c).host
  have hafter : ∀ scene ∈ (run.after c).host.scenes, P scene := by
    rw [hscenes]
    exact hc.2
  exact Contract.Allows.of_after (fun _ => trivial)
    ⟨⟨hstep (hsteps.step c).plain hc.1, hafter⟩, trivial⟩

theorem Contract.Allows.note_picturing {change : Context (Recorded β σ) -> Journal β σ}
    {c : Context (Recorded β σ)} (hc : (Contract.picturing P).Holds c)
    (hown : (change c).own = c.host.own) {scene : Context (Plain β σ)}
    (hshows : c.host.Shows (change c) scene) (hscene : P scene) :
    (Contract.picturing P).Allows c ((Run.note change : Run ε (Recorded β σ) Unit) c) := by
  have hplain : (c.journaling (change c)).plain = c.plain := by
    simp only [Context.plain, Context.journaling, hown]
  have hnow : P (c.journaling (change c)).plain := by
    rw [hplain]
    exact hc.1
  refine ⟨⟨hnow, fun other hother => ?_⟩, trivial⟩
  rcases hshows.mem_scenes hother with hold | rfl
  · exact hc.2 other hold
  · exact hscene

theorem notePoint_picturing (pending : Option Nat) :
    (Journal.notePoint pending : Run ε (Recorded β σ) Unit).Keeps (.picturing P) :=
  fun c hc => Contract.Allows.note_picturing hc rfl (.point c.host ⟨c.plain, pending⟩) hc.1

theorem noteCall_picturing (attached : Option Nat) :
    (Journal.noteCall attached : Run ε (Recorded β σ) Unit).Keeps (.picturing P) :=
  fun c hc => Contract.Allows.note_picturing hc rfl
    (.call c.host ⟨c.frames.top?.getD default, attached, c.plain⟩) hc.1

theorem noteBirth_picturing (block : Block (Numbered β)) {scene : Context (Plain β σ)}
    (hscene : P scene) :
    (Journal.noteBirth block scene : Run ε (Recorded β σ) Unit).Keeps (.picturing P) :=
  fun c hc => Contract.Allows.note_picturing hc rfl (.birth c.host ⟨block, scene⟩) hscene

theorem notePass_picturing (yielding : Yielding β σ) (number : Nat) (receiver : Option Value) :
    (Journal.notePass yielding number receiver : Run ε (Recorded β σ) Unit).Keeps
      (.picturing P) :=
  fun c hc => Contract.Allows.note_picturing hc rfl
    (.pass c.host ⟨yielding, number, receiver, c.plain⟩) hc.1

theorem noteBinding_picturing (yielding : Yielding β σ) (receiver : Value) :
    (Journal.noteBinding yielding receiver : Run ε (Recorded β σ) Unit).Keeps
      (.picturing P) :=
  fun c hc => Contract.Allows.note_picturing hc rfl { Journal.Shows.refl c.host c.plain with } hc.1

theorem Evaluator.Keeps.watching (he : eval.Keeps (.picturing P)) (yielding : Yielding β σ) :
    (eval.watching yielding).Keeps (.picturing P) where
  body code receiver args :=
    (notePass_picturing yielding _ _).bind fun _ => he.body code receiver args
  callback code args data :=
    (notePass_picturing yielding _ _).bind fun _ => he.callback code args data
  bind pattern receiver value strict :=
    (noteBinding_picturing yielding _).bind fun _ => he.bind pattern receiver value strict

theorem recorded_picturing {run : Run ε (Plain β σ) α} (h : ∀ c, P c -> P (run.after c)) :
    run.recorded.Keeps (.picturing P) := by
  intro c hc
  have hafter := h c.plain hc.1
  unfold Run.recorded
  cases hr : run c.plain with
  | ok a d =>
      rw [Run.after_of_ok hr] at hafter
      exact ⟨⟨hafter, hc.2⟩, trivial⟩
  | error exit d =>
      rw [Run.after_of_error hr] at hafter
      exact ⟨⟨⟨hafter, hc.2⟩, trivial⟩, fun _ _ => trivial⟩

theorem sustains_picturing {Leaf : Run Signal (Plain β σ) Value -> Prop}
    (hstep : ∀ {c d : Context (Plain β σ)}, c.Step d -> P c -> P d)
    (hleaf : ∀ {op}, Leaf op -> ∀ c, P c -> P (op.after c)) (he : eval.Keeps (.picturing P)) :
    Program.Sustains (.picturing P) eval Leaf where
  point := notePoint_picturing
  leaf hop := recorded_picturing (hleaf hop)
  capture params receiver body := by
    intro c hc
    unfold Program.captureBlock
    rw [Run.bind_of_ok (Run.get_apply c)]
    have hnote : ∀ (block : Block (Numbered β)) (number : Nat),
        (Journal.noteBirth block c.plain >>= fun _ => Pure.pure number :
          Run Signal (Recorded β σ) Nat).Keeps (.picturing P) :=
      fun block number => (noteBirth_picturing block hc.1).bind fun _ => Run.Keeps.pure number
    cases receiver with
    | some receiver =>
        have hblock := Operation.newBlockWithSelf (H := Recorded β σ) (ε := Signal) params
          (.body ⟨c.host.births.length, body⟩) receiver
        exact (picturing_tolerant hstep hblock.steps c hc).bind fun block => hnote block _
    | none =>
        have hblock := Operation.newBlock (H := Recorded β σ) (ε := Signal) params
          (.body ⟨c.host.births.length, body⟩)
        exact (picturing_tolerant hstep hblock.steps c hc).bind fun block => hnote block _
  call number code hcode := by
    refine Run.Keeps.get.bind fun c => ?_
    cases c.host.births[number]? with
    | none => exact Run.Keeps.pure _
    | some birth =>
        exact Layer.around_keeps (picturing_tolerant hstep) he hcode (.withBlock birth.block)
  iteration callback data hdriver := by
    intro c hc
    unfold Program.iterateNumbered
    rw [Run.bind_of_ok (Program.noteCallback_eq c callback data)]
    have hborn := noteBirth_picturing (ε := Signal) (c.capture .undeclared
      (.callback ⟨c.host.births.length, callback⟩ data) c.topSelf) hc.1 c hc
    exact (Layer.around_keeps (picturing_tolerant hstep) he (hdriver _)
      (.iterate ⟨c.host.births.length, callback⟩ data) _ hborn.1).of_links hborn.2
  yield value receiver cls strict :=
    Run.Keeps.get.bind fun _ =>
      Layer.around_keeps (picturing_tolerant hstep) (he.watching _) .exhausted
        (.yield value receiver cls strict)
  method attached receiver name _ hcode :=
    Layer.around_keeps (picturing_tolerant hstep) he
      ((noteCall_picturing attached).bind fun _ => hcode) (.invoke receiver name)
  moduleBody module _ hcode :=
    Run.Keeps.get.bind fun c => Layer.around_keeps (picturing_tolerant hstep) he
      ((noteCall_picturing (c.host.attached? c)).bind fun _ => hcode) (.openModule module)

end Picturing

/-- A property that every step keeps, and every operation at the leaves, holds in all scenes of a
run from a context with the property. -/
theorem Codebase.forall_scenes {P : Context (Plain β σ) -> Prop}
    {Leaf : Run Signal (Plain β σ) Value -> Prop}
    (hstep : ∀ {c d : Context (Plain β σ)}, c.Step d -> P c -> P d)
    (hleaf : ∀ {op}, Leaf op -> ∀ c, P c -> P (op.after c))
    {codebase : Codebase β σ} {program : Program β σ} (hcode : codebase.All Leaf)
    (hp : program.All Leaf) (config : Config) (errors : ErrorStream) (own : σ)
    (processId : Int64) (depth : Nat)
    (hstart : P (Codebase.starting config errors own processId : Context (Recorded β σ)).plain) :
    ∀ scene ∈ (codebase.journal program config errors own processId depth).scenes, P scene := by
  have hbind : ∀ pattern receiver value strict,
      (Binder.default pattern receiver value strict : Run Failure (Plain β σ) Unit).recorded.Keeps
        (.picturing P) := by
    intro pattern receiver value strict
    exact recorded_picturing fun c hc => hstep ((bindDynamic_steps pattern value strict).step c) hc
  have hsustains : ∀ depth, (codebase.evaluator .default depth).Keeps (.picturing P) ->
      Program.Sustains (.picturing P) (codebase.evaluator .default depth) Leaf :=
    fun _ he => sustains_picturing hstep hleaf he
  have he := Codebase.evaluator_keeps hcode hbind hsustains depth
  have hrun := (noteCall_picturing (P := P) (ε := Signal) none).bind fun _ =>
    (hsustains depth he).run_keeps program hp none
  have hinitial : (Contract.picturing P).Holds
      (Codebase.starting config errors own processId : Context (Recorded β σ)) := by
    refine ⟨hstart, fun scene h => ?_⟩
    cases h
  exact (hrun _ hinitial).after.1.2

end ExecutionContext
