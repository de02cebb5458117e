import ExecutionContext.Proofs.Recording

/-! # Blocks run in the context they captured

In a run from the start the namespace is always the one stored in the current frame,
and frames keep theirs. An activation takes its namespace from the frame of the block,
so it is the one that the block captured; every pass through a body finds the frame, the
scope, the mark and the class of the block's creation, and a chain that grew from the
captured one behind a fresh link.
-/

namespace ExecutionContext

variable {β σ : Type}

/-! ## What is recorded faithfully -/

/-- The current frame was handed out, and its namespace is the present one. -/
def Context.Anchored {H : Host} (c : Context H) : Prop :=
  ∃ frame ns, c.frames.top? = some frame ∧ c.frameCells.Has frame ∧
    (c.frameCells.read frame).ns = some ns ∧ c.ns = some ns

/-- The block holds what was current when it was created. -/
structure Birth.Sound (birth : Birth β σ) : Prop where
  frame : birth.scene.frames.top? = some birth.block.frame
  scope : birth.scene.scopes.top? = some birth.block.scope
  mark : birth.scene.marks.top? = some birth.block.mark
  ns : birth.scene.ns = birth.block.ns
  cls : birth.scene.classes.current = birth.block.cls
  chain : birth.scene.chain = birth.block.chain

/-- A birth recorded under a number, whose frame keeps the namespace that the block captured. -/
structure Birth.Kept (birth : Birth β σ) (cells : Arena .frame Frame) (number : Nat) : Prop
    extends birth.Sound where
  number : birth.block.code.number = number
  has : cells.Has birth.block.frame
  keeps : ∃ ns, birth.block.ns = some ns ∧ (cells.read birth.block.frame).ns = some ns

theorem Birth.Kept.of_kept {birth : Birth β σ} {old new : Arena .frame Frame} {number : Nat}
    (h : birth.Kept old number) (hk : FramesKept old new) : birth.Kept new number := by
  obtain ⟨ns, hb, hn⟩ := h.keeps
  obtain ⟨hh, _, hns⟩ := hk _ h.has
  exact { h with has := hh, keeps := ⟨ns, hb, hns ns hn⟩ }

/-- The context is that of an activation of the born block: its frame, scope, namespace and class
are those of the birth, unless the yield gives another class. -/
structure Context.InBlock (c : Context (Plain β σ)) (birth : Birth β σ)
    (yielding : Yielding β σ) : Prop where
  frame : c.frames.top? = birth.scene.frames.top?
  scope : c.scopes.top? = birth.scene.scopes.top?
  ns : c.ns = birth.scene.ns
  cls : c.classes.current = yielding.cls.or birth.scene.classes.current

/-- The receiver of a body, by the yield and the block; callbacks have none. -/
def Birth.receiver? (birth : Birth β σ) (yielding : Yielding β σ) : Option Value :=
  match birth.block.code with
  | .body _ => some (birth.block.receiverFor yielding.override yielding.cls)
  | .callback .. => none

structure Pass.Captured (pass : Pass β σ) (birth : Birth β σ) : Prop
    extends pass.scene.InBlock birth pass.yielding where
  mark : pass.scene.marks.top? = birth.scene.marks.top?
  receiver : pass.receiver = birth.receiver? pass.yielding
  chain : ∃ cell, ¬ pass.yielding.site.bindings.Has cell ∧
    ⟨none, cell⟩ :: birth.scene.chain <:+ pass.scene.chain

structure Binding.Captured (binding : Binding β σ) (birth : Birth β σ) : Prop
    extends binding.scene.InBlock birth binding.yielding where
  receiver : binding.receiver =
    birth.block.receiverFor binding.yielding.override binding.yielding.cls
  chain : ∃ cell, ¬ binding.yielding.site.bindings.Has cell ∧
    binding.scene.chain = ⟨none, cell⟩ :: birth.scene.chain

/-- Everything in the journal is as blocks and frames demand. -/
structure Journal.Faithful (journal : Journal β σ) (cells : Arena .frame Frame) : Prop where
  births : ∀ {number : Nat} {birth : Birth β σ},
    journal.births[number]? = some birth -> birth.Kept cells number
  points : ∀ {point : Point β σ}, point ∈ journal.points -> point.scene.Anchored
  passes : ∀ {pass : Pass β σ}, pass ∈ journal.passes ->
    ∃ birth, journal.births[pass.number]? = some birth ∧ pass.Captured birth
  bindings : ∀ {binding : Binding β σ}, binding ∈ journal.bindings ->
    ∃ birth ∈ journal.births, binding.yielding.site.yieldTarget? = some birth.block ∧
      binding.Captured birth

/-- The context is anchored, and all its blocks were born in the run. -/
structure Context.Settled (c : Context (Recorded β σ)) : Prop where
  anchored : c.Anchored
  blocks : ∀ {block}, block ∈ c.blocks.live ->
    ∃ birth, c.host.births[block.code.number]? = some birth ∧ birth.block = block

/-! ## The invariant under growth -/

variable {c d : Context (Recorded β σ)}

theorem Context.Settled.of_calm (h : c.Settled) (hd : c.Calm d) (hx : c.host.Extends d.host) :
    d.Settled where
  anchored := by
    obtain ⟨frame, ns, hf, hh, hr, hn⟩ := h.anchored
    obtain ⟨hh', _, hns⟩ := hd.frameCells frame hh
    exact ⟨frame, ns, by rw [hd.frames]; exact hf, hh', hns ns hr, hd.ns ns hn⟩
  blocks hb := by
    rw [hd.blocks] at hb
    obtain ⟨birth, hbirth, he⟩ := h.blocks hb
    exact ⟨birth, hx.birth hbirth, he⟩

namespace Journal.Faithful

variable {journal new : Journal β σ} {cells : Arena .frame Frame}

theorem of_kept {kept : Arena .frame Frame} (own : σ) (h : journal.Faithful cells)
    (hk : FramesKept cells kept) : { journal with own := own }.Faithful kept where
  births hb := (h.births hb).of_kept hk
  points := h.points
  passes := h.passes
  bindings := h.bindings

theorem extend (h : journal.Faithful cells) (hx : journal.Extends new)
    (hbirths : ∀ {number : Nat} {birth : Birth β σ}, new.births[number]? = some birth ->
      journal.births[number]? = some birth ∨ birth.Kept cells number)
    (hpoints : ∀ {point : Point β σ}, point ∈ new.points ->
      point ∈ journal.points ∨ point.scene.Anchored)
    (hpasses : ∀ {pass : Pass β σ}, pass ∈ new.passes -> pass ∈ journal.passes ∨
      ∃ birth, new.births[pass.number]? = some birth ∧ pass.Captured birth)
    (hbindings : ∀ {binding : Binding β σ}, binding ∈ new.bindings ->
      binding ∈ journal.bindings ∨ ∃ birth ∈ new.births,
        binding.yielding.site.yieldTarget? = some birth.block ∧ binding.Captured birth) :
    new.Faithful cells where
  births hb := (hbirths hb).elim h.births id
  points hp := (hpoints hp).elim h.points id
  passes hp := by
    rcases hpasses hp with hold | hnew
    · obtain ⟨birth, hb, hc⟩ := h.passes hold
      exact ⟨birth, hx.birth hb, hc⟩
    · exact hnew
  bindings hb := by
    rcases hbindings hb with hold | hnew
    · obtain ⟨birth, hm, hc⟩ := h.bindings hold
      exact ⟨birth, hx.births.subset hm, hc⟩
    · exact hnew

end Journal.Faithful

def Ledger.faithful : Ledger β σ where
  Holds := Journal.Faithful
  of_kept own h hk := h.of_kept own hk

def Situation.settled : Situation β σ where
  Holds := Context.Settled
  of_calm := Context.Settled.of_calm

/-- The invariant of runs from the start. -/
abbrev lawful : Contract (Recorded β σ) :=
  .recording .faithful .settled

/-! ## Notes and captures -/

theorem notePoint_lawful {ε : Type} (pending : Option Nat) :
    (Journal.notePoint pending : Run ε (Recorded β σ) Unit).Keeps lawful := by
  intro c hc
  have hx : c.host.Extends { c.host with points := c.host.points ++ [⟨c.plain, pending⟩] } :=
    Journal.extends_point _ _
  refine Contract.Allows.note hc hx (hc.2.1.extend hx Or.inl ?_ Or.inl Or.inl)
  intro point hp
  rcases List.mem_append.mp hp with hold | hnew
  · exact Or.inl hold
  · rw [List.mem_singleton.mp hnew]
    exact Or.inr hc.2.2.anchored

theorem noteCall_lawful {ε : Type} (attached : Option Nat) :
    (Journal.noteCall attached : Run ε (Recorded β σ) Unit).Keeps lawful := by
  intro c hc
  have hx : c.host.Extends { c.host with
      calls := c.host.calls ++ [⟨c.frames.top?.getD default, attached, c.plain⟩] } :=
    Journal.extends_call _ _
  exact Contract.Allows.note hc hx (hc.2.1.extend hx Or.inl Or.inl Or.inl Or.inl)

theorem Context.Based.sound_capture (hc : c.Based) (params : Params) (code : Code (Numbered β))
    (receiver : Value) : (Birth.mk (c.capture params code receiver) c.plain).Sound := by
  obtain ⟨frame, hf⟩ := hc.exists_frame
  obtain ⟨scope, hs⟩ := hc.exists_scope
  obtain ⟨mark, hm⟩ := hc.exists_mark
  have hf' : c.plain.frames.top? = some frame := hf
  have hs' : c.plain.scopes.top? = some scope := hs
  have hm' : c.plain.marks.top? = some mark := hm
  exact ⟨by simp [capture, hf, hf'], by simp [capture, hs, hs'], by simp [capture, hm, hm'],
    rfl, rfl, rfl⟩

theorem recordingBirth_lawful (hc : lawful.Holds c) (params : Params) (code : Code (Numbered β))
    (receiver : Value) (hn : code.number = c.host.births.length) :
    lawful.Holds (Program.recordingBirth c (c.capture params code receiver)) ∧
      lawful.Links c (Program.recordingBirth c (c.capture params code receiver)) := by
  have hx : c.host.Extends { c.host with
      births := c.host.births ++ [⟨c.capture params code receiver, c.plain⟩] } :=
    Journal.extends_birth _ _
  have hnote : Ledger.faithful.Holds { c.host with
      births := c.host.births ++ [⟨c.capture params code receiver, c.plain⟩] } c.frameCells := by
    refine hc.2.1.extend hx ?_ Or.inl Or.inl Or.inl
    intro number birth hb
    rcases Journal.birth_of_snoc hb with hold | ⟨rfl, rfl⟩
    · exact Or.inl hold
    · obtain ⟨frame, ns, hf, hh, hr, hns⟩ := hc.2.2.anchored
      have hframe : (c.capture params code receiver).frame = frame := by simp [Context.capture, hf]
      refine Or.inr { hc.1.sound_capture params code receiver with
        number := hn
        has := ?_
        keeps := ⟨ns, hns, ?_⟩ }
      · rw [hframe]; exact hh
      · rw [hframe]; exact hr
  have hallows : lawful.Allows c ((Journal.noteBirth (c.capture params code receiver) c.plain :
      Run Signal (Recorded β σ) Unit) c) := Contract.Allows.note hc hx hnote
  exact hallows

theorem Context.Settled.attaching (h : c.Settled) {number : Nat} {birth : Birth β σ}
    (hb : c.host.births[number]? = some birth) (hn : birth.block.code.number = number) :
    (c.attaching birth.block).Settled where
  anchored := h.anchored
  blocks hm := by
    rcases List.mem_cons.mp hm with rfl | hold
    · exact ⟨birth, hn ▸ hb, rfl⟩
    · exact h.blocks hold

theorem attaching_lawful (hc : lawful.Holds c) {number : Nat} {birth : Birth β σ}
    (hb : c.host.births[number]? = some birth) : lawful.Holds (c.attaching birth.block) :=
  ⟨hc.1.attaching birth.block, hc.2.1, hc.2.2.attaching hb (hc.2.1.births hb).number⟩

theorem invoking_lawful (hc : lawful.Holds c) (receiver : Value) (method : String)
    (mark : Attachment) : lawful.Holds (c.invoking receiver method mark) := by
  refine ⟨hc.1.invoking receiver method mark, hc.2.1.of_kept c.host.own (.alloc _ _), ?_,
    hc.2.2.blocks⟩
  obtain ⟨frame, ns, hf, hh, hr, hn⟩ := hc.2.2.anchored
  refine ⟨_, ns, rfl, Arena.has_alloc _ _, ?_, hn⟩
  rw [Context.invoking, Arena.read_alloc_self]
  exact hn

theorem openingModule_lawful (hc : lawful.Holds c) (module : Ref .module) (mark : Attachment) :
    lawful.Holds (c.openingModule module mark) := by
  refine ⟨hc.1.openingModule module mark, hc.2.1.of_kept c.host.own (.alloc _ _), ?_,
    hc.2.2.blocks⟩
  refine ⟨_, _, rfl, Arena.has_alloc _ _, ?_, rfl⟩
  rw [Context.openingModule, Arena.read_alloc_self]
  rfl

/-! ## Yields -/

/-- The block of a yield was born in the run. -/
theorem Context.Settled.exists_birth (hc : c.Based) (h : c.Settled) {block : Block (Numbered β)}
    (ht : c.yieldTarget? = some block) :
    ∃ birth, c.host.births[block.code.number]? = some birth ∧ birth.block = block := by
  refine h.blocks ?_
  rw [hc.live_eq_of_target ht]
  exact List.mem_cons_self

section Yields

variable {number : Nat} {birth : Birth β σ}

theorem entering_lawful (hc : lawful.Holds c) (hb : c.host.births[number]? = some birth)
    (cls : Option (Ref .module)) : lawful.Holds (c.entering birth.block cls) := by
  refine ⟨hc.1.entering birth.block cls, hc.2.1, ?_,
    fun hm => hc.2.2.blocks (List.mem_of_mem_tail hm)⟩
  have hk := hc.2.1.births hb
  obtain ⟨ns, _, hn⟩ := hk.keeps
  refine ⟨birth.block.frame, ns, rfl, hk.has, hn, ?_⟩
  simp [Context.entering, hn]

theorem inBlock_entering (hc : lawful.Holds c) (hb : c.host.births[number]? = some birth)
    (receiver : Option Value) (cls : Option (Ref .module)) :
    (c.entering birth.block cls).plain.InBlock birth ⟨c.plain, receiver, cls⟩ where
  frame := (hc.2.1.births hb).frame.symm
  scope := by
    obtain ⟨scope, hs⟩ := hc.1.exists_scope
    exact (Stack.top?_withTop hs birth.block.scope).trans (hc.2.1.births hb).scope.symm
  ns := by
    obtain ⟨ns, hbn, hn⟩ := (hc.2.1.births hb).keeps
    rw [(hc.2.1.births hb).ns, hbn]
    simp [Context.plain, Context.entering, hn]
  cls := by
    rw [(hc.2.1.births hb).cls]
    rfl

/-- A context inside a block stays inside as long as nothing is replaced. -/
theorem Context.InBlock.of_calm {yielding : Yielding β σ} (h : c.plain.InBlock birth yielding)
    (hc : c.Anchored) (hd : c.Calm d) : d.plain.InBlock birth yielding where
  frame := (congrArg Stack.top? hd.frames).trans h.frame
  scope := (congrArg Stack.top? hd.scopes).trans h.scope
  ns := by
    obtain ⟨_, ns, _, _, _, hn⟩ := hc
    have hns : birth.scene.ns = some ns := h.ns.symm.trans hn
    rw [hns]
    exact hd.ns ns hn
  cls := (congrArg OpenClass.current hd.classes).trans h.cls

/-- The chain on which an entered block starts: a fresh link in front of the captured one. -/
theorem exists_link_entering (hc : lawful.Holds c) (hb : c.host.births[number]? = some birth)
    (cls : Option (Ref .module)) : ∃ cell, ¬ c.bindings.Has cell ∧
      (c.entering birth.block cls).chain = ⟨none, cell⟩ :: birth.scene.chain := by
  refine ⟨_, Arena.not_has_alloc c.bindings .nil, ?_⟩
  rw [(hc.2.1.births hb).chain]
  rfl

/-- The binding of parameters inside a born block is as the block demands. -/
theorem noteBinding_faithful (hc : lawful.Holds c) (hb : c.host.births[number]? = some birth)
    (ht : c.yieldTarget? = some birth.block) (receiver : Option Value)
    (cls : Option (Ref .module)) (heap : Heap) :
    Journal.Faithful { c.host with bindings := c.host.bindings ++ [⟨⟨c.plain, receiver, cls⟩,
      birth.block.receiverFor receiver cls,
      { c.entering birth.block cls with heap := heap }.plain⟩] } c.frameCells := by
  have hx : ∀ binding : Binding β σ, c.host.Extends
      { c.host with bindings := c.host.bindings ++ [binding] } :=
    fun _ => Journal.extends_binding _ _
  refine hc.2.1.extend (hx _) Or.inl Or.inl Or.inl ?_
  intro binding hm
  rcases List.mem_append.mp hm with hold | hnew
  · exact Or.inl hold
  · rw [List.mem_singleton.mp hnew]
    exact Or.inr ⟨birth, List.mem_of_getElem? hb, ht,
      { inBlock_entering hc hb receiver cls with
        receiver := rfl
        chain := exists_link_entering hc hb cls }⟩

structure Context.Within (c : Context (Recorded β σ)) (birth : Birth β σ)
    (yielding : Yielding β σ) : Prop extends c.plain.InBlock birth yielding where
  mark : c.marks.top? = birth.scene.marks.top?
  chain : ∃ cell, ¬ yielding.site.bindings.Has cell ∧
    ⟨none, cell⟩ :: birth.scene.chain <:+ c.chain

theorem Context.Within.of_calm {yielding : Yielding β σ} (h : c.Within birth yielding)
    (hc : c.Anchored) (hd : c.Calm d) : d.Within birth yielding where
  toInBlock := h.toInBlock.of_calm hc hd
  mark := (congrArg Stack.top? hd.marks).trans h.mark
  chain := by
    obtain ⟨cell, hcell, hs⟩ := h.chain
    exact ⟨cell, hcell, hs.trans hd.chain⟩

variable {inside : Context (Recorded β σ)} {yielding : Yielding β σ}

/-- A pass through the body of a born block is recorded as captured. -/
theorem notePass_lawful (hw : inside.Within birth yielding) (ha : inside.Anchored)
    (hb : inside.host.births[birth.block.code.number]? = some birth) :
    (Journal.notePass yielding birth.block.code.number (birth.receiver? yielding) :
      Run Signal (Recorded β σ) Unit).Keeps (lawful.startingAt inside) := by
  intro d hd
  have hx : d.host.Extends { d.host with passes := d.host.passes ++
      [⟨yielding, birth.block.code.number, birth.receiver? yielding, d.plain⟩] } :=
    Journal.extends_pass _ _
  refine Contract.Allows.startingAt hd
    (Contract.Allows.note hd.1 hx (hd.1.2.1.extend hx Or.inl Or.inl ?_ Or.inl))
  intro pass hm
  rcases List.mem_append.mp hm with hold | hnew
  · exact Or.inl hold
  · rw [List.mem_singleton.mp hnew]
    have hwithin := hw.of_calm ha hd.2.1
    exact Or.inr ⟨birth, hd.2.2.birth hb, { hwithin.toInBlock with
      mark := hwithin.mark
      receiver := rfl
      chain := hwithin.chain }⟩

end Yields

theorem starting_lawful (config : Config) (errors : ErrorStream) (own : σ) (processId : Int64) :
    lawful.Holds (Codebase.starting config errors own processId : Context (Recorded β σ)) := by
  refine ⟨Context.based_start rfl rfl processId, ⟨?_, ?_, ?_, ?_⟩, ?_, ?_⟩
  · intro number birth h
    cases h
  · intro point h
    cases h
  · intro pass h
    cases h
  · intro binding h
    cases h
  · exact ⟨_, _, rfl, Arena.has_alloc _ _, congrArg Frame.ns (Arena.read_alloc_self _ _), rfl⟩
  · intro block h
    cases h

end ExecutionContext
