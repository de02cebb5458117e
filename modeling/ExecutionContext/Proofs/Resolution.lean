import ExecutionContext.Proofs.Rooting

/-! # Constants resolve wherever code runs

However module bodies, methods and blocks are nested, the namespace at every point of a run ends at
the top level, which stands for `Object`. So a name that a definition has bound so far is found
from there, on the nearest enclosing module that binds it.
-/

namespace ExecutionContext

variable {ε α β σ : Type}

/-! ## Programs that leave namespaces to the six operations -/

/-- The run stays in the namespace of every rooted context; and if the host notes in its own state
that a name was defined, then `Object` binds the name. -/
def Run.Ordinary (noted : σ -> List String) (run : Run ε (Plain β σ) α) : Prop :=
  ∀ (c : Context (Plain β σ)) top core, c.Rooted top core -> c.Stays (run.after c) ∧
    ∀ name ∈ noted (run.after c).host,
      name ∈ noted c.host ∨ ((run.after c).topConstant? name).isSome = true

namespace Run.Ordinary

variable {noted : σ -> List String}

theorem of_stays {run : Run ε (Plain β σ) α} (h : run.Stays)
    (hhost : ∀ c, (run.after c).host = c.host) : run.Ordinary noted := by
  intro c top core hc
  refine ⟨h.stays hc, fun name hname => Or.inl ?_⟩
  rw [hhost] at hname
  exact hname

/-- Every single operation is ordinary, unless it may leave the namespace. -/
theorem of_operation {effects : List Effect} {run : Run ε (Plain β σ) α}
    (h : Operation effects run) (hno : ∀ effect ∈ effects, effect ∉ Effect.straying) :
    run.Ordinary noted :=
  of_stays (h.stays hno) fun c => (h.steps.step c).host

theorem pure (a : α) : (Pure.pure a : Run ε (Plain β σ) α).Ordinary noted :=
  of_stays (.pure a) fun _ => rfl

theorem default (pattern : Pattern) (receiver value : Value) (strict : Bool) :
    (Binder.default pattern receiver value strict : Run Failure (Plain β σ) Unit).Ordinary
      noted := by
  have hstays : (bindDynamic pattern value strict : Run Failure (Plain β σ) Unit).Stays := by
    intro top core
    rw [← bindDynamicBy_setDynamic]
    have hset : ∀ name value,
        (setDynamic name value : Run Failure (Plain β σ) Unit).Keeps (.staying top core) :=
      fun name value => (Run.Stays.modifyGet fun _ => rfl) top core
    exact bindDynamicBy_keeps (fun name _ => hset name)
      (fun items => newArray_stays items top core) value strict
  exact of_stays hstays fun c => ((bindDynamic_steps pattern value strict).step c).host

end Run.Ordinary

/-- Perform a definition, and let the host note its name when it is carried out. -/
def Definition.noting (note : String -> σ -> σ) (definition : Definition) :
    Run Signal (Plain β σ) Value := do
  let deed ← Run.signalling definition.perform
  modify fun c => { c with host := note deed.name c.host }
  return (deed.value? deed.name).getD .nil

theorem Definition.topConstant?_of_perform {H : Host} {c d : Context H} {top : Ref .level}
    {core : Catalogue CoreClass} (hc : c.Rooted top core) {definition : Definition} {deed : Deed}
    (h : definition.perform c = .ok deed d) : c.Stays d ∧
      ∃ value, deed.value? deed.name = some value ∧ d.topConstant? deed.name = some value := by
  rcases definition.of_perform_ok hc.core_eq h with ⟨made, _, rfl, rfl⟩ | ⟨name, value, rfl, rfl⟩
  · have hstays := c.stays_making (core.get .object) made
    refine ⟨hstays, .module c.heap.next, if_pos rfl, ?_⟩
    rw [(hc.stays hstays).topConstant?, (hc.stays hstays).module]
    have hobject := (Heap.KeepsNames.adding c.heap made).modules _ hc.object
    exact (Heap.constant?_setConstant hobject _ _ _).trans (if_pos rfl)
  · have hstays := c.stays_binding (core.get .object) name value
    refine ⟨hstays, value, if_pos rfl, ?_⟩
    rw [(hc.stays hstays).topConstant?, (hc.stays hstays).module]
    exact (Heap.constant?_setConstant hc.object _ _ _).trans (if_pos rfl)

theorem Definition.noting_ordinary {noted : σ -> List String} {note : String -> σ -> σ}
    (hnote : ∀ name own, ∀ other ∈ noted (note name own), other = name ∨ other ∈ noted own)
    (definition : Definition) :
    (definition.noting note : Run Signal (Plain β σ) Value).Ordinary noted := by
  intro c top core hc
  cases hperform : definition.perform c with
  | error exit d =>
      have hafter : (definition.noting note).after c = d := by
        cases exit <;> simp [Run.after, noting, Run.signalling, hperform]
      have hsame := definition.of_perform_error hc.core_eq hperform
      rw [hafter, hsame]
      exact ⟨.refl c, fun _ hname => Or.inl hname⟩
  | ok deed d =>
      obtain ⟨hstays, value, _, hvalue⟩ := Definition.topConstant?_of_perform hc hperform
      have hhost : d.host = c.host := by
        rcases definition.of_perform_ok hc.core_eq hperform with
          ⟨made, _, _, rfl⟩ | ⟨name, value, _, rfl⟩ <;> rfl
      have hafter : (definition.noting note).after c =
          { d with host := note deed.name d.host } := by
        simp [Run.after, noting, Run.signalling, hperform]
      rw [hafter]
      refine ⟨{ hstays with }, fun name hname => ?_⟩
      rcases hnote deed.name d.host name hname with rfl | hold
      · refine Or.inr (Option.isSome_iff_exists.mpr ⟨value, hvalue⟩)
      · rw [hhost] at hold
        exact Or.inl hold

/-! ## What all scenes of a run have in common -/

structure Context.Resolves (noted : σ -> List String) (top : Ref .level)
    (core : Catalogue CoreClass) (c : Context (Plain β σ)) : Prop where
  rooted : c.Rooted top core
  bound : ∀ name ∈ noted c.host, (c.topConstant? name).isSome = true

/-- Every scene so far resolves, and so does the present context; and the frames that blocks
captured were handed out. -/
def Contract.resolving (noted : σ -> List String) (top : Ref .level)
    (core : Catalogue CoreClass) : Contract (Recorded β σ) where
  Holds c := (Contract.picturing (Context.Resolves noted top core)).Holds c ∧
    ∀ birth ∈ c.host.births, c.frameCells.Has birth.block.frame
  Links := Context.LosesNothing
  Faults _ := True
  refl := .refl
  trans := .trans

section Resolving

variable {noted : σ -> List String} {top : Ref .level} {core : Catalogue CoreClass}

theorem Context.rooted_plain_iff {c : Context (Recorded β σ)} :
    c.plain.Rooted top core ↔ c.Rooted top core :=
  ⟨fun h => { h with }, fun h => { h with }⟩

theorem resolving_grounds :
    (Contract.resolving noted top core : Contract (Recorded β σ)).Grounds top core where
  rooted hc := Context.rooted_plain_iff.mp hc.1.1.rooted
  losesNothing := id
  faults _ := trivial
  step := by
    intro c d hc hd hloses hstep
    have hrooted := hc.1.1.rooted
    refine ⟨⟨⟨⟨Context.rooted_plain_iff.mpr hd, fun name hname => ?_⟩, ?_⟩, ?_⟩, hloses⟩
    · have hown : d.plain.host = c.plain.host := congrArg Journal.own hstep.host
      rw [hown] at hname
      have hbound := hc.1.1.bound name hname
      rw [hrooted.topConstant?, hrooted.module] at hbound
      rw [(Context.rooted_plain_iff.mpr hd).topConstant?, (Context.rooted_plain_iff.mpr hd).module]
      exact hloses.heap.bound _ name hbound
    · rw [hstep.host]
      exact hc.1.2
    · rw [hstep.host]
      exact fun birth hbirth => hloses.cells _ (hc.2 birth hbirth)

/-- A note shows a scene that resolves, and a block whose frame was handed out, if any. -/
theorem Contract.Allows.note_resolving {change : Context (Recorded β σ) -> Journal β σ}
    {c : Context (Recorded β σ)} (hpictures :
      (Contract.picturing (Context.Resolves noted top core)).Allows c
        ((Run.note change : Run ε (Recorded β σ) Unit) c))
    (hbirths : ∀ birth ∈ (change c).births, c.frameCells.Has birth.block.frame) :
    (Contract.resolving noted top core).Allows c
      ((Run.note change : Run ε (Recorded β σ) Unit) c) :=
  ⟨⟨hpictures.1, hbirths⟩, ⟨fun _ hframe => hframe, .refl _⟩⟩

theorem notePoint_resolving (pending : Option Nat) :
    (Journal.notePoint pending : Run ε (Recorded β σ) Unit).Keeps
      (.resolving noted top core) :=
  fun c hc => .note_resolving (notePoint_picturing pending c hc.1) hc.2

theorem noteCall_resolving (attached : Option Nat) :
    (Journal.noteCall attached : Run ε (Recorded β σ) Unit).Keeps
      (.resolving noted top core) :=
  fun c hc => .note_resolving (noteCall_picturing attached c hc.1) hc.2

theorem noteBirth_resolving {c : Context (Recorded β σ)}
    (hc : (Contract.resolving noted top core).Holds c) {block : Block (Numbered β)}
    (hblock : c.frameCells.Has block.frame) {scene : Context (Plain β σ)}
    (hscene : scene.Resolves noted top core) :
    (Contract.resolving noted top core).Allows c
      ((Journal.noteBirth block scene : Run ε (Recorded β σ) Unit) c) := by
  refine .note_resolving (noteBirth_picturing block hscene c hc.1) fun birth hbirth => ?_
  rcases List.mem_append.mp hbirth with hold | hnew
  · exact hc.2 birth hold
  · rw [List.mem_singleton.mp hnew]
    exact hblock

theorem Evaluator.Keeps.watching_resolving {eval : Evaluator (Recorded β σ)}
    (he : eval.Keeps (.resolving noted top core)) (yielding : Yielding β σ) :
    (eval.watching yielding).Keeps (.resolving noted top core) := by
  have hpass : ∀ number receiver, (Journal.notePass yielding number receiver :
      Run Signal (Recorded β σ) Unit).Keeps (.resolving noted top core) :=
    fun number receiver c hc =>
      .note_resolving (notePass_picturing yielding number receiver c hc.1) hc.2
  have hbinding : ∀ receiver, (Journal.noteBinding yielding receiver :
      Run Failure (Recorded β σ) Unit).Keeps (.resolving noted top core) :=
    fun receiver c hc => .note_resolving (noteBinding_picturing yielding receiver c hc.1) hc.2
  constructor
  · exact fun code receiver args => (hpass _ _).bind fun _ => he.body code receiver args
  · exact fun code args data => (hpass _ _).bind fun _ => he.callback code args data
  · exact fun pattern receiver value strict =>
      (hbinding _).bind fun _ => he.bind pattern receiver value strict

theorem Run.Ordinary.recorded {run : Run ε (Plain β σ) α} (h : run.Ordinary noted) :
    run.recorded.Keeps (.resolving noted top core) := by
  intro c hc
  obtain ⟨hstays, hnoted⟩ := h c.plain top core hc.1.1.rooted
  have hresolves : (run.after c.plain).Resolves noted top core := by
    refine ⟨hc.1.1.rooted.stays hstays, fun name hname => ?_⟩
    rcases hnoted name hname with hold | hnew
    · exact hc.1.1.rooted.bound_stays hstays (hc.1.1.bound name hold)
    · exact hnew
  have hafter : ∀ d, run.after c.plain = d ->
      (Contract.resolving noted top core).Holds (d.recorded c.host) ∧
        c.LosesNothing (d.recorded c.host) := by
    intro d hd
    subst hd
    have hcells := hstays.losesNothing.cells
    exact ⟨⟨⟨hresolves, hc.1.2⟩, fun birth hbirth => hcells _ (hc.2 birth hbirth)⟩,
      ⟨hcells, hstays.heap⟩⟩
  unfold Run.recorded
  cases hr : run c.plain with
  | ok a d => exact hafter d (Run.after_of_ok hr)
  | error exit d => exact ⟨hafter d (Run.after_of_error hr), fun _ _ => trivial⟩

theorem captureBlock_resolving (params : Params) (receiver : Option Value) (body : β) :
    (Program.captureBlock params receiver body).Keeps (.resolving noted top core) := by
  have hborn : ∀ self (c : Context (Recorded β σ)), (Contract.resolving noted top core).Holds c ->
      (Contract.resolving noted top core).Allows c ((do
        let block ← newBlockWithSelf params (.body ⟨c.host.births.length, body⟩) self
        Journal.noteBirth block c.plain
        return c.host.births.length : Run Signal (Recorded β σ) Nat) c) := by
    intro self c hc
    let code : Code (Numbered β) := .body ⟨c.host.births.length, body⟩
    rcases newBlockWithSelf_cases (H := Recorded β σ) (ε := Signal) params code self c with
      ⟨_, hblock⟩ | ⟨_, fault, hfault⟩
    · rw [Run.bind_of_ok hblock]
      obtain ⟨hcapturing, hlinks⟩ :=
        resolving_grounds.step_of_stays hc c.stays_capturing (.of_fixture rfl)
      have hframe := (resolving_grounds.rooted hc).has_capture params code self
      have hnote := noteBirth_resolving (ε := Signal) hcapturing hframe hc.1.1
      exact (hnote.bind fun _ => .pure _).of_links hlinks
    · rw [Run.bind_of_error hfault]
      exact ⟨⟨hc, Contract.refl _ c⟩, fun _ _ => trivial⟩
  intro c hc
  unfold Program.captureBlock
  rw [Run.bind_of_ok (Run.get_apply c)]
  cases receiver with
  | some self => exact hborn self c hc
  | none =>
      dsimp only
      unfold newBlock
      rw [bind_assoc, Run.bind_of_ok (Run.get_apply c)]
      exact hborn _ c hc

theorem sustains_resolving {eval : Evaluator (Recorded β σ)}
    (he : eval.Keeps (.resolving noted top core)) :
    Program.Sustains (.resolving noted top core) eval (Run.Ordinary noted) where
  point := notePoint_resolving
  leaf hop := hop.recorded
  capture := captureBlock_resolving
  call number code hcode := by
    intro c hc
    unfold Program.callNumbered
    rw [Run.bind_of_ok (Run.get_apply c)]
    cases hbirth : c.host.births[number]? with
    | none => exact Run.Keeps.pure _ c hc
    | some birth =>
        have hframe := hc.2 birth (List.mem_of_getElem? hbirth)
        exact resolving_grounds.attachingBlock_allows hc hframe (hcode.attempts_call eval.limit)
  iteration callback data hdriver := by
    intro c hc
    unfold Program.iterateNumbered
    rw [Run.bind_of_ok (Program.noteCallback_eq c callback data)]
    let code : Code (Numbered β) := .callback ⟨c.host.births.length, callback⟩ data
    have hframe := (resolving_grounds.rooted hc).has_capture .undeclared code c.topSelf
    have hborn := noteBirth_resolving (ε := Signal) hc hframe hc.1.1
    exact (resolving_grounds.iterate_keeps (hdriver _) _ data _ hborn.1).of_links hborn.2
  yield value receiver cls strict :=
    Run.Keeps.get.bind fun _ =>
      resolving_grounds.yieldBlock_keeps (he.watching_resolving _) value receiver cls strict
  method attached receiver name _ hcode :=
    resolving_grounds.invoke_keeps receiver name
      ((noteCall_resolving attached).bind fun _ => hcode)
  moduleBody module _ hcode :=
    Run.Keeps.get.bind fun c => resolving_grounds.openModule_keeps module
      ((noteCall_resolving (c.host.attached? c)).bind fun _ => hcode)

end Resolving

/-- The contexts that a whole run from the start shows, with the given binder. -/
def Codebase.scenesWith (code : Codebase β σ) (binder : Binder β σ) (program : Program β σ)
    (config : Config) (errors : ErrorStream) (own : σ) (processId : Int64) (depth : Nat) :
    List (Context (Plain β σ)) :=
  let run : Run Signal (Recorded β σ) Value := do
    Journal.noteCall none
    program.run (code.evaluator binder depth) none
  (run.after (starting config errors own processId)).host.scenes

/-- All scenes of an ordinary run resolve. -/
theorem Codebase.scenes_resolve {noted : σ -> List String} {code : Codebase β σ}
    (hcode : code.All (Run.Ordinary noted)) {binder : Binder β σ}
    (hbinder : ∀ pattern receiver value strict,
      (binder pattern receiver value strict).Ordinary noted)
    {program : Program β σ} (hprogram : program.All (Run.Ordinary noted)) (config : Config)
    (errors : ErrorStream) {own : σ} (hown : noted own = []) (processId : Int64) (depth : Nat) :
    ∀ scene ∈ code.scenesWith binder program config errors own processId depth,
      scene.Resolves noted ⟨0⟩ Builtin.defined.1 := by
  have hinitial : (Contract.resolving noted ⟨0⟩ Builtin.defined.1).Holds
      (starting config errors own processId : Context (Recorded β σ)) := by
    have hrooted := Context.rooted_start (H := Recorded β σ) config errors { own := own } processId
    have hhost := (step_start (Context.new config errors ({ own := own } : Journal β σ) :
      Context (Recorded β σ)) processId).host
    unfold starting
    generalize (Context.new config errors ({ own := own } : Journal β σ) :
      Context (Recorded β σ)).start processId = c at hrooted hhost
    have hjournal : c.host = { own := own } := hhost
    have hplain : c.plain.host = own := congrArg Journal.own hjournal
    refine ⟨⟨⟨Context.rooted_plain_iff.mpr hrooted, ?_⟩, ?_⟩, ?_⟩
    · rw [hplain, hown]
      exact fun name hname => absurd hname List.not_mem_nil
    · rw [hjournal]
      exact fun scene hscene => absurd hscene List.not_mem_nil
    · rw [hjournal]
      exact fun birth hbirth => absurd hbirth List.not_mem_nil
  have hbind : ∀ pattern receiver value strict,
      (binder pattern receiver value strict).recorded.Keeps
        (.resolving noted ⟨0⟩ Builtin.defined.1) :=
    fun pattern receiver value strict => (hbinder pattern receiver value strict).recorded
  have he := evaluator_keeps hcode hbind (fun _ he => sustains_resolving he) depth
  have hrun := (noteCall_resolving (ε := Signal) none).bind fun _ =>
    (sustains_resolving he).run_keeps program hprogram none
  exact (hrun _ hinitial).after.1.1.2

/-- A constant is looked up on the modules of the namespace, innermost first, and then on the
superclasses of the innermost one; and the namespace never loses the top level. -/
theorem constants_resolve (noted : σ -> List String) :
    (∀ (heap : Heap) (levels : Levels) (ns : Namespace), heap.Linked -> ∃ supers,
      heap.Superclasses (ns.module levels) supers ∧ ∀ name,
        (∀ value, ns.constant? levels heap name = some value ↔
          heap.BindsFirst (ns.modules levels ++ supers) name value) ∧
        (ns.constant? levels heap name = none ↔
          ∀ module ∈ ns.modules levels ++ supers, heap.constant? module name = none)) ∧
    -- Ordinary programs are nested from operations that stay in their namespace.
    (∀ {effects : List Effect} {ε α : Type} {run : Run ε (Plain β σ) α}, Operation effects run ->
      (∀ effect ∈ effects, effect ∉ Effect.straying) -> run.Ordinary noted) ∧
    ∀ (code : Codebase β σ) (binder : Binder β σ) (program : Program β σ),
      code.All (Run.Ordinary noted) ->
      (∀ pattern receiver value strict, (binder pattern receiver value strict).Ordinary noted) ->
      program.All (Run.Ordinary noted) ->
      ∀ config errors own processId depth, noted own = [] ->
      ∀ scene ∈ code.scenesWith binder program config errors own processId depth,
        ∃ ns top core, scene.ns = some ns ∧ ns.EndsAt top ∧
          scene.topNamespace = some { level := top } ∧ scene.core = some core ∧
          scene.levels.read top = core.get .object ∧
          -- Every name that a definition has bound by then is still a constant of `Object`, and is
          -- found on the nearest enclosing module that binds it.
          (∀ name ∈ noted scene.host, (scene.topConstant? name).isSome = true) ∧
          (∀ name, (scene.topConstant? name).isSome = true -> ∃ value,
            scene.constant? name = some value ∧
            scene.heap.BindsFirst (ns.modules scene.levels) name value) ∧
          ∀ (definition : Definition) deed d, definition.perform scene = .ok deed d ->
            ∃ value, deed.value? deed.name = some value ∧
              d.topConstant? deed.name = some value := by
  refine ⟨?_, Run.Ordinary.of_operation, ?_⟩
  · intro heap levels ns hlinked
    exact ⟨_, hlinked.superclasses _, fun name =>
      ⟨fun value => Namespace.constant?_eq_some_iff, Namespace.constant?_eq_none_iff⟩⟩
  · intro code binder program hcode hbinder hprogram config errors own processId depth hown scene
      hscene
    have hresolves := Codebase.scenes_resolve hcode hbinder hprogram config errors hown processId
      depth scene hscene
    have hrooted := hresolves.rooted
    obtain ⟨ns, hns, hends⟩ := hrooted.ns
    refine ⟨ns, ⟨0⟩, Builtin.defined.1, hns, hends, hrooted.topNamespace, hrooted.core_eq,
      hrooted.module, hresolves.bound, fun name hbound => hrooted.exists_constant? hns hbound,
      fun definition deed d hperform => ?_⟩
    exact (Definition.topConstant?_of_perform hrooted hperform).2

/-! ## A constant of a module and one of `Object` -/

/-- Define a module, bind a constant of its own in its body, and call a method with a block from
there. -/
def Program.geometry : Program Unit (List String) :=
  .andThen (.perform ((Definition.module "Geometry").noting List.cons)) fun value =>
    match value with
    | .module geometry =>
        .andThen
          (.openModule geometry <| .andThen
            (.perform do
              setConstant geometry "PI" (.int 2)
              return .nil)
            fun _ => .capture .undeclared none () fun number =>
              .withBlock number (.invoke .nil "area" (.yield none none none false)))
          fun _ => .perform (return .nil)
    | _ => .perform (return .nil)

def Codebase.geometry : Codebase Unit (List String) where
  body := fun _ _ _ =>
    .andThen (.perform ((Definition.constant "PI" (.int 3)).noting List.cons)) fun _ =>
      .perform (return .nil)
  callback := fun _ _ _ => .perform (return .nil)

theorem Program.geometry_ordinary : Program.geometry.All (Run.Ordinary id) := by
  refine ⟨Definition.noting_ordinary (fun _ _ _ => List.mem_cons.mp) _, fun value => ?_⟩
  cases value with
  | module geometry =>
      have hbind : (do
          setConstant geometry "PI" (.int 2)
          return .nil : Run Signal (Plain Unit (List String)) Value).Ordinary id :=
        .of_stays ((setConstant_stays geometry "PI" (.int 2)).bind fun _ => .pure _) fun _ => rfl
      exact ⟨⟨hbind, fun _ _ => trivial⟩, fun _ => .pure _⟩
  | _ => exact .pure _

theorem Codebase.geometry_ordinary : Codebase.geometry.All (Run.Ordinary id) := by
  refine ⟨fun _ _ _ => ⟨?_, fun _ => .pure _⟩, fun _ _ _ => .pure _⟩
  exact Definition.noting_ordinary (fun _ _ _ => List.mem_cons.mp) _

/-- Inside the module its own constant is found, and that of `Object` outside; a class finds the
constants of `Object` where nothing encloses it. -/
theorem constants_resolve_geometry :
    let scenes := Codebase.geometry.scenesWith .default Program.geometry {} .silent [] 0 1
    (∀ scene ∈ scenes, ∀ name ∈ scene.host, (scene.constant? name).isSome = true) ∧
      (scenes.take 10).map (fun scene => (scene.host, scene.constant? "PI")) =
        [([], none), (["Geometry"], none), (["Geometry"], none),
          (["Geometry"], some (.int 2)), (["Geometry"], some (.int 2)),
          (["Geometry"], some (.int 2)), (["Geometry"], some (.int 2)),
          (["Geometry"], some (.int 2)), (["PI", "Geometry"], some (.int 2)),
          (["PI", "Geometry"], some (.int 3))] ∧
      ∃ supers, Builtin.defined.2.2.2.Superclasses (Builtin.defined.1.get .string) supers ∧
        ∃ value, Builtin.defined.2.2.2.BindsFirst (Builtin.defined.1.get .string :: supers)
          "Kernel" value := by
  intro scenes
  obtain ⟨hlookup, _, hruns⟩ := constants_resolve (β := Unit) (id : List String -> List String)
  refine ⟨fun scene hscene name hname => ?_, by decide +kernel, ?_⟩
  · obtain ⟨ns, top, core, _, _, _, _, _, hnoted, hfound, _⟩ :=
      hruns Codebase.geometry .default Program.geometry Codebase.geometry_ordinary
        Run.Ordinary.default Program.geometry_ordinary {} .silent [] 0 1 rfl scene hscene
    obtain ⟨value, hvalue, _⟩ := hfound name (hnoted name hname)
    rw [hvalue]
    rfl
  · obtain ⟨supers, hsupers, hfirst⟩ := hlookup Builtin.defined.2.2.2
      ⟨#[Builtin.defined.1.get .string]⟩ { level := ⟨0⟩ } Builtin.tree_defined.linked
    have hkernel : ({ level := ⟨0⟩ } : Namespace).constant?
        ⟨#[Builtin.defined.1.get .string]⟩ Builtin.defined.2.2.2 "Kernel" =
          some (.module (Builtin.defined.1.get .kernel)) := by
      decide +kernel
    exact ⟨supers, hsupers, _, ((hfirst "Kernel").1 _).mp hkernel⟩

end ExecutionContext
