import ExecutionContext.Proofs.NameTables
import ExecutionContext.Proofs.Scenes
import ExecutionContext.Proofs.Staying

/-! # Contexts stay rooted

The six operations replace namespaces, but only by ones that end at the top level as well: the body
of a module gets a namespace inside the present one, a method the present one, and a block that of
the frame that it captured. So at every point of a run each name that `Object` binds is found, on
the nearest module that binds it.
-/

namespace ExecutionContext

variable {H : Host} {ε α β σ : Type}

/-! ## Contracts of rooted contexts -/

/-- Frames that were handed out stay so, and names stay bound. -/
structure Context.LosesNothing (c d : Context H) : Prop where
  cells : ∀ frame, c.frameCells.Has frame -> d.frameCells.Has frame
  heap : c.heap.KeepsNames d.heap

theorem Context.LosesNothing.refl (c : Context H) : c.LosesNothing c :=
  ⟨fun _ h => h, .refl _⟩

theorem Context.LosesNothing.trans {c d e : Context H} (h : c.LosesNothing d)
    (h' : d.LosesNothing e) : c.LosesNothing e :=
  ⟨fun frame hframe => h'.cells frame (h.cells frame hframe), h.heap.trans h'.heap⟩

theorem Context.Stays.losesNothing {c d : Context H} (h : c.Stays d) : c.LosesNothing d :=
  ⟨fun frame hframe => (h.cells frame hframe).1, h.heap⟩

def Contract.rooted (top : Ref .level) (core : Catalogue CoreClass) : Contract H where
  Holds c := c.Rooted top core
  Links := Context.LosesNothing
  Faults _ := True
  refl := .refl
  trans := .trans

variable {top : Ref .level} {core : Catalogue CoreClass}

theorem Run.Stays.rooted {run : Run ε H α} (h : run.Stays) : run.Keeps (.rooted top core) := by
  intro c hc
  have hstays := h.stays hc
  exact Contract.Allows.of_after (fun _ => trivial) ⟨hc.stays hstays, hstays.losesNothing⟩

/-- A contract of rooted contexts that allows every step to another one, if it is a step of a single
operation and loses nothing. -/
structure Contract.Grounds (K : Contract H) (top : Ref .level) (core : Catalogue CoreClass) :
    Prop where
  rooted : ∀ {c}, K.Holds c -> c.Rooted top core
  losesNothing : ∀ {c d}, K.Links c d -> c.LosesNothing d
  step : ∀ {c d}, K.Holds c -> d.Rooted top core -> c.LosesNothing d -> c.Step d ->
    K.Holds d ∧ K.Links c d
  faults : ∀ fault, K.Faults fault

namespace Contract.Grounds

variable {K : Contract H}

theorem allows (hK : K.Grounds top core) {run : Run ε H α} (hsteps : run.Steps) {c : Context H}
    (hc : K.Holds c) (h : (Contract.rooted top core).Allows c (run c)) : K.Allows c (run c) :=
  Contract.Allows.of_after hK.faults (hK.step hc h.after.1 h.after.2 (hsteps.step c))

theorem keeps (hK : K.Grounds top core) {run : Run ε H α} (hsteps : run.Steps)
    (h : run.Keeps (.rooted top core)) : run.Keeps K :=
  fun c hc => hK.allows hsteps hc (h c (hK.rooted hc))

theorem keeps_of_stays (hK : K.Grounds top core) {run : Run ε H α} (hsteps : run.Steps)
    (h : run.Stays) : run.Keeps K :=
  hK.keeps hsteps h.rooted

theorem keeps_of_looks (hK : K.Grounds top core) {run : Run ε H α} (h : run.Looks) :
    run.Keeps K :=
  hK.keeps_of_stays (.of_looks h) (.of_looks h)

theorem startingAt (hK : K.Grounds top core) (c : Context H) :
    (K.startingAt c).Grounds top core where
  rooted h := hK.rooted h.1
  losesNothing := hK.losesNothing
  step hd hrooted hloses hstep := by
    obtain ⟨hnow, hlinks⟩ := hK.step hd.1 hrooted hloses hstep
    exact ⟨⟨hnow, K.trans hd.2 hlinks⟩, hlinks⟩
  faults := hK.faults

theorem step_of_stays (hK : K.Grounds top core) {c d : Context H} (hc : K.Holds c)
    (hstays : c.Stays d) (hstep : c.Step d) : K.Holds d ∧ K.Links c d :=
  hK.step hc ((hK.rooted hc).stays hstays) hstays.losesNothing hstep

end Contract.Grounds

/-! ## What the layers install -/

namespace Context

variable {c : Context H}

theorem Rooted.has_capture (hc : c.Rooted top core) (params : Params) (code : Code H.Body)
    (receiver : Value) : c.frameCells.Has (c.capture params code receiver).frame := by
  show c.frameCells.Has (c.frames.top?.getD default)
  cases htop : c.frames.top? with
  | none => exact hc.first
  | some frame =>
      rw [Stack.top?_eq_head?] at htop
      exact hc.frames frame (List.mem_of_head? htop)

theorem stays_capturing (c : Context H) : c.Stays c.capturing :=
  .of_lexical rfl

theorem stays_attaching (c : Context H) {block : Block H.Body}
    (hblock : c.frameCells.Has block.frame) : c.Stays (c.attaching block) :=
  { Stays.refl c with
    blocks := fun other hother => by
      rcases List.mem_cons.mp hother with rfl | hold
      · exact Or.inr hblock
      · exact Or.inl hold }

theorem stays_invoking (c : Context H) (receiver : Value) (method : String)
    (mark : Attachment) : c.Stays (c.invoking receiver method mark) := by
  have hopened := c.stays_openFrame (c.methodFrame receiver method mark) rfl
  exact { hopened with }

theorem Rooted.withNamespace (hc : c.Rooted top core) {ns : Option Namespace}
    (hns : RootedAt top ns) : { c with ns := ns }.Rooted top core :=
  { hc with ns := hns }

theorem losesNothing_withNamespace (c : Context H) (ns : Option Namespace) :
    c.LosesNothing { c with ns := ns } :=
  ⟨fun _ hframe => hframe, .refl _⟩

theorem Rooted.entering (hc : c.Rooted top core) {block : Block H.Body}
    (hblock : c.frameCells.Has block.frame) (cls : Option (Ref .module)) :
    (c.entering block cls).Rooted top core :=
  { hc with
    ns := by
      -- The frame has a namespace, so the one that the block captured does not matter.
      obtain ⟨inner, hinner, hends⟩ := hc.cells block.frame hblock
      refine ⟨inner, ?_, hends⟩
      show (c.frameCells.read block.frame).ns.or block.ns = some inner
      rw [hinner]
      rfl
    frames := fun frame hframe => by
      rcases List.mem_cons.mp hframe with rfl | hold
      · exact hblock
      · exact hc.frames frame hold
    blocks := fun other hother => by
      have hmem : other ∈ c.blocks.live.tail ++ c.blocks.base := hother
      refine hc.blocks other (List.mem_append.mpr ?_)
      exact (List.mem_append.mp hmem).imp_left List.mem_of_mem_tail }

theorem step_entering (c : Context H) (block : Block H.Body) (cls : Option (Ref .module)) :
    c.Step (c.entering block cls) :=
  .of_eq rfl rfl rfl fun hstarted =>
    ⟨hstarted, rfl, rfl, rfl, rfl, fun hbase => Stack.base_withTop_ne_nil hbase block.scope⟩

/-- The body of a module runs in a namespace inside the present one. -/
theorem Rooted.openingModule (hc : c.Rooted top core) (module : Ref .module) (mark : Attachment) :
    (c.openingModule module mark).Rooted top core := by
  obtain ⟨parent, hparent, hends⟩ := hc.ns
  have hinner : c.innerNamespace module = parent.child c.levels module := by
    rw [innerNamespace, hparent]
  have hns : RootedAt top (some (c.innerNamespace module).1) := by
    rw [hinner]
    exact ⟨_, rfl, hends.child _ _⟩
  have hlevels : (c.innerNamespace module).2 = (c.levels.alloc module).2 := by
    rw [hinner]
    rfl
  -- In the inner namespace, the frame of the module is opened like any other.
  have hopened := ({ c with ns := some (c.innerNamespace module).1 }).stays_openFrame
    (c.moduleFrame module mark) rfl
  have hrooted := (hc.withNamespace hns).stays hopened
  refine { hrooted with level := ?_, module := ?_ }
  · show (c.innerNamespace module).2.Has top
    rw [hlevels]
    exact hc.level.alloc module
  · show (c.innerNamespace module).2.read top = _
    rw [hlevels, Arena.read_alloc_of_has hc.level]
    exact hc.module

theorem losesNothing_openingModule (c : Context H) (module : Ref .module) (mark : Attachment) :
    c.LosesNothing (c.openingModule module mark) :=
  ⟨fun _ hframe => hframe.alloc _, .refl _⟩

end Context

/-! ## Closing the layers -/

theorem detachBlock_steps : (detachBlock : Run Signal H Unit).Steps :=
  Operation.popBlock.steps.bind fun _ => Operation.popMark.steps.bind fun _ => .pure ()

theorem detachBlock_stays : (detachBlock : Run Signal H Unit).Stays :=
  (Operation.popBlock.stays (by decide)).bind fun _ =>
    (Operation.popMark.stays (by decide)).bind fun _ => .pure ()

theorem leaveFrame_steps : (leaveFrame : Run Signal H Unit).Steps :=
  Operation.popFrame.steps.bind fun _ => Operation.popMark.steps.bind fun _ => .pure ()

theorem leaveFrame_stays : (leaveFrame : Run Signal H Unit).Stays :=
  (Operation.popFrame.stays (by decide)).bind fun _ =>
    (Operation.popMark.stays (by decide)).bind fun _ => .pure ()

theorem leaveModule_steps (outer : Option Namespace) :
    (leaveModule outer : Run Signal H Unit).Steps :=
  (Operation.setNamespace outer).steps.bind fun _ => Operation.popClass.steps.bind fun _ =>
    Operation.popScope.steps.bind fun _ => Operation.popFrame.steps.bind fun _ => .pure ()

theorem setNamespace_rooted {ns : Option Namespace} (hns : RootedAt top ns) :
    (setNamespace ns : Run ε H _).Keeps (.rooted top core) :=
  fun c hc => ⟨hc.withNamespace hns, c.losesNothing_withNamespace ns⟩

theorem leaveModule_rooted {outer : Option Namespace} (houter : RootedAt top outer) :
    (leaveModule outer : Run Signal H Unit).Keeps (.rooted top core) :=
  (setNamespace_rooted houter).bind fun _ =>
    (Operation.popClass.stays (by decide)).rooted.bind fun _ =>
      (Operation.popScope.stays (by decide)).rooted.bind fun _ =>
        (Operation.popFrame.stays (by decide)).rooted.bind fun _ => .pure ()

/-- Leaving a block puts it back on its stack, where its frame must be one that was handed out. -/
theorem leaveBlock_rooted {c : Context H} (hc : c.Rooted top core) {block : Block H.Body}
    (hblock : c.frameCells.Has block.frame) {suspended : Suspended}
    (hns : RootedAt top suspended.ns) :
    (Contract.rooted top core).Allows c ((leaveBlock block suspended : Run ε H Unit) c) := by
  let K : Contract H := (Contract.rooted top core).startingAt c
  have hstays : ∀ {γ : Type} {run : Run ε H γ}, run.Stays -> run.Keeps K :=
    fun h => h.rooted.startingAt c
  have hpush : (pushBlock block : Run ε H Unit).Keeps K := by
    intro d hd
    have hattached := d.stays_attaching (hd.2.cells block.frame hblock)
    have hpushed : d.Stays { d with blocks := d.blocks.push block } := { hattached with }
    have hrooted := hd.1.stays hpushed
    exact ⟨⟨hrooted, hd.2.trans hpushed.losesNothing⟩, hpushed.losesNothing⟩
  have hresume : (modify fun d => { d with ns := suspended.ns } : Run ε H Unit).Keeps K := by
    have hkeeps : (modify fun d => { d with ns := suspended.ns } : Run ε H Unit).Keeps
        (.rooted top core) :=
      fun d hd => ⟨hd.withNamespace hns, d.losesNothing_withNamespace suspended.ns⟩
    exact hkeeps.startingAt c
  have hleave : (leaveBlock block suspended : Run ε H Unit).Keeps K := by
    refine (hstays (Operation.popClass.stays (by decide))).bind fun _ => ?_
    refine Run.Keeps.bind (hstays (.modifyGet fun _ => rfl)) fun _ => ?_
    refine hpush.bind fun _ => (hstays (Operation.popFrame.stays (by decide))).bind fun _ => ?_
    refine hresume.bind fun _ => ?_
    exact (hstays ((Operation.setTopScope _).stays (by decide))).bind fun _ => .pure ()
  exact (hleave c ⟨hc, .refl c⟩).of_startingAt

/-! ## The six operations -/

namespace Contract.Grounds

variable {K : Contract H} {eval : Evaluator H} {code : Run Signal H Value}

theorem attachingBlock_allows (hK : K.Grounds top core) {c : Context H} (hc : K.Holds c)
    {block : Block H.Body} (hblock : c.frameCells.Has block.frame) (hcode : code.Keeps K) :
    K.Allows c (attachingBlock block code c) := by
  obtain ⟨hin, hlinks⟩ := hK.step_of_stays hc (c.stays_attaching hblock) (.of_fixture rfl)
  have hclose := hK.keeps_of_stays detachBlock_steps detachBlock_stays
  exact (hcode.ensuring hclose _ hin).of_links hlinks

theorem iterate_keeps (hK : K.Grounds top core) {driver : Value -> Run Signal H Value}
    {data1 : Value} (hdriver : (driver data1).Keeps K) (callback : H.Body) (data : Value) :
    (iterate eval driver data1 callback data).Keeps K := by
  intro c hc
  unfold iterate
  rw [Run.bind_of_ok (Run.get_apply c)]
  rcases newBlockWithSelf_cases (ε := Signal) .undeclared (.callback callback data) c.topSelf c with
    ⟨_, hblock⟩ | ⟨_, fault, hfault⟩
  · rw [Run.bind_of_ok hblock]
    obtain ⟨hcapturing, hlinks⟩ := hK.step_of_stays hc c.stays_capturing (.of_fixture rfl)
    have hframe := (hK.rooted hc).has_capture .undeclared (.callback callback data) c.topSelf
    have hattempts := hdriver.attempts_iteration eval.limit
    exact (hK.attachingBlock_allows hcapturing hframe hattempts).of_links hlinks
  · rw [Run.bind_of_error hfault]
    exact ⟨⟨hc, K.refl c⟩, fun fault _ => hK.faults fault⟩

theorem invoke_keeps (hK : K.Grounds top core) (receiver : Value) (method : String)
    (hcode : code.Keeps K) : (invoke receiver method code).Keeps K := by
  refine (hK.keeps_of_looks (.signalling .checkDepth)).bind fun _ => ?_
  intro c hc
  cases hmark : c.marks.top? with
  | none =>
      rw [Run.bind_of_error (currentMark_of_none hmark)]
      exact ⟨⟨hc, K.refl c⟩, fun fault _ => hK.faults fault⟩
  | some mark =>
      rw [Run.bind_of_ok (currentMark_of_top? hmark)]
      obtain ⟨hin, hlinks⟩ := hK.step_of_stays hc
        (c.stays_invoking receiver method mark) (.of_fixture rfl)
      have hclose := hK.keeps_of_stays leaveFrame_steps leaveFrame_stays
      exact (hcode.catchingReturn.ensuring hclose _ hin).of_links hlinks

theorem openModule_keeps (hK : K.Grounds top core) (module : Ref .module) (hcode : code.Keeps K) :
    (openModule module code).Keeps K := by
  refine (hK.keeps_of_looks (.signalling .checkDepth)).bind fun _ => ?_
  intro c hc
  cases hmark : c.marks.top? with
  | none =>
      rw [Run.bind_of_error (currentMark_of_none hmark)]
      exact ⟨⟨hc, K.refl c⟩, fun fault _ => hK.faults fault⟩
  | some mark =>
      rw [Run.bind_of_ok (currentMark_of_top? hmark)]
      have hrooted := hK.rooted hc
      obtain ⟨hin, hlinks⟩ := hK.step hc (hrooted.openingModule module mark)
        (c.losesNothing_openingModule module mark) (.of_fixture rfl)
      have hclose := hK.keeps (leaveModule_steps c.ns) (leaveModule_rooted hrooted.ns)
      exact (hcode.ensuring hclose _ hin).of_links hlinks

theorem yieldBlock_keeps (hK : K.Grounds top core) (he : eval.Keeps K)
    (value receiver : Option Value) (cls : Option (Ref .module)) (strict : Bool) :
    (yieldBlock eval value receiver cls strict).Keeps K := by
  intro c hc
  rcases beginYield_cases eval value receiver cls strict c with ⟨exit, hexit⟩ | ⟨block, hblock⟩
  · rw [yieldBlock_eq_begin, Run.bind_of_error hexit]
    exact ⟨⟨hc, K.refl c⟩, fun fault _ => hK.faults fault⟩
  · rw [yieldBlock_of_activates hblock]
    have hrooted := hK.rooted hc
    have hframe : c.frameCells.Has block.frame := by
      refine hrooted.blocks block ?_
      rw [Stack.entries, hblock.live]
      exact List.mem_cons_self
    obtain ⟨hin, hlinks⟩ := hK.step hc (hrooted.entering hframe cls)
      ⟨fun _ h => h, .refl _⟩ (c.step_entering block cls)
    -- Whatever happens inside, the frame of the block stays handed out until the block is left.
    have hleave : (leaveBlock block c.suspend : Run Signal H Unit).Keeps
        (K.startingAt (c.entering block cls)) := by
      intro d hd
      have hkept := (hK.losesNothing hd.2).cells block.frame hframe
      exact (hK.startingAt _).allows (leaveBlock_steps block c.suspend) hd
        (leaveBlock_rooted (hK.rooted hd.1) hkept hrooted.ns)
    have hempty := hK.keeps_of_stays (newArray_steps (ε := Signal) []) (newArray_stays [])
    have hprepare := (Run.Keeps.prepareArgs hempty he.bind block (block.receiverFor receiver cls)
      value strict).startingAt (c.entering block cls)
    have hstays : ∀ {γ : Type} {run : Run Signal H γ}, run.Steps -> run.Stays ->
        run.Keeps (K.startingAt (c.entering block cls)) :=
      fun hsteps h => (hK.startingAt _).keeps_of_stays hsteps h
    have hrun : (runEntered eval block c.suspend (block.receiverFor receiver cls) value
        strict).Keeps (K.startingAt (c.entering block cls)) := by
      refine (hprepare.unwinding hleave).bind fun args => ?_
      refine Run.Keeps.bind ?_ fun _ => ?_
      · exact hstays (Operation.pushMark _).steps ((Operation.pushMark _).stays (by decide))
      have hbody := he.runCode
        (fun args => hK.keeps_of_stays (packArgs_steps args) (packArgs_stays args))
        block.code (block.receiverFor receiver cls) args
      refine ((hbody.passes eval.limit).startingAt _).ensuring ?_
      have hpop := hstays Operation.popMark.steps (Operation.popMark.stays (by decide))
      exact hpop.bind fun _ => hleave
    exact (hrun _ ⟨hin, K.refl _⟩).of_startingAt.of_links hlinks

end Contract.Grounds

end ExecutionContext
