import ExecutionContext.Proofs.Supplement

/-! # Blocks attached again

A block may be attached to any number of calls, within each other or after the call
that created it. A yield in its body asks the frame that the block captured whether a
block was given, and activates the block that lies next below on the stack. Where the
block was attached again, that need not be the block of the call that created it: it
may be a stranger, and it may be the block itself.
-/

namespace ExecutionContext

variable {β σ : Type}

/-! ## The ledger -/

/-- The frame of a recorded call was handed out when its code began, and is the one on top there. -/
structure Call.Placed (call : Call β σ) (cells : Arena .frame Frame) : Prop where
  top : call.scene.frames.top? = some call.frame
  has : call.scene.frameCells.Has call.frame
  kept : FramesKept call.scene.frameCells cells

/-- The pass runs a born block, which its yield took off the stack, in the frame that it
captured. -/
structure Pass.Detached (pass : Pass β σ) (birth : Birth β σ) (cells : Arena .frame Frame) :
    Prop where
  based : pass.scene.Based
  blocks : pass.yielding.site.blocks = pass.scene.blocks.push birth.block
  top : pass.scene.frames.top? = some birth.block.frame
  has : pass.scene.frameCells.Has birth.block.frame
  kept : FramesKept pass.scene.frameCells cells

/-- Calls and passes are recorded where they begin, and each block was created in the frame of a
recorded call. -/
structure Journal.Placed (journal : Journal β σ) (cells : Arena .frame Frame) : Prop where
  calls : ∀ {call : Call β σ}, call ∈ journal.calls -> call.Placed cells
  births : ∀ {birth : Birth β σ}, birth ∈ journal.births ->
    ∃ home, journal.call? birth.block.frame = some home
  passes : ∀ {pass : Pass β σ}, pass ∈ journal.passes ->
    ∃ birth, journal.births[pass.number]? = some birth ∧ pass.Detached birth cells

theorem Call.Placed.of_kept {call : Call β σ} {old new : Arena .frame Frame}
    (h : call.Placed old) (hk : FramesKept old new) : call.Placed new :=
  { h with kept := h.kept.trans hk }

theorem Pass.Detached.of_kept {pass : Pass β σ} {birth : Birth β σ} {old new : Arena .frame Frame}
    (h : pass.Detached birth old) (hk : FramesKept old new) : pass.Detached birth new :=
  { h with kept := h.kept.trans hk }

namespace Journal.Placed

variable {journal new : Journal β σ} {old cells : Arena .frame Frame}

theorem extend (h : journal.Placed old) (hx : journal.Extends new) (hk : FramesKept old cells)
    (hcalls : ∀ {call : Call β σ}, call ∈ new.calls ->
      call ∈ journal.calls ∨ call.Placed cells)
    (hbirths : ∀ {birth : Birth β σ}, birth ∈ new.births -> birth ∈ journal.births ∨
      ∃ home, new.call? birth.block.frame = some home)
    (hpasses : ∀ {pass : Pass β σ}, pass ∈ new.passes -> pass ∈ journal.passes ∨
      ∃ birth, new.births[pass.number]? = some birth ∧ pass.Detached birth cells) :
    new.Placed cells where
  calls hm := (hcalls hm).elim (fun hold => (h.calls hold).of_kept hk) id
  births hm := by
    rcases hbirths hm with hold | hnew
    · obtain ⟨home, hhome⟩ := h.births hold
      exact ⟨home, hx.call hhome⟩
    · exact hnew
  passes hm := by
    rcases hpasses hm with hold | hnew
    · obtain ⟨birth, hb, hd⟩ := h.passes hold
      exact ⟨birth, hx.birth hb, hd.of_kept hk⟩
    · exact hnew

/-- A frame that was not handed out yet belongs to no recorded call. -/
theorem call?_eq_none (h : journal.Placed cells) {frame : Ref .frame} (hnew : ¬ cells.Has frame) :
    journal.call? frame = none := by
  refine List.find?_eq_none.mpr fun call hm hframe => hnew ?_
  have hplaced := h.calls hm
  rw [← of_decide_eq_true hframe]
  exact (hplaced.kept _ hplaced.has).1

end Journal.Placed

theorem Journal.frame_of_call? {journal : Journal β σ} {frame : Ref .frame} {call : Call β σ}
    (h : journal.call? frame = some call) : call ∈ journal.calls ∧ call.frame = frame := by
  unfold Journal.call? at h
  exact ⟨List.mem_of_find?_eq_some h, by simpa using List.find?_some h⟩

def Ledger.placed : Ledger β σ where
  Holds := Journal.Placed
  of_kept own h hk := h.extend (.own _ own) hk Or.inl Or.inl Or.inl

def Situation.placed : Situation β σ where
  Holds c := ∃ frame home, c.frames.top? = some frame ∧ c.host.call? frame = some home
  of_calm := by
    rintro c d ⟨frame, home, hf, hh⟩ hd hx
    refine ⟨frame, home, ?_, hx.call hh⟩
    rw [hd.frames]
    exact hf

/-- Opening a frame hands it out, puts it on top, and keeps all others. -/
theorem Context.OpensFrame.fresh {c inside : Context (Recorded β σ)} (h : c.OpensFrame inside) :
    inside.host = c.host ∧ FramesKept c.frameCells inside.frameCells ∧
      ∃ frame, inside.frames.top? = some frame ∧ ¬ c.frameCells.Has frame ∧
        inside.frameCells.Has frame := by
  cases h with
  | method receiver name mark =>
      exact ⟨rfl, .alloc _ _, _, rfl, Arena.not_has_alloc _ _, Arena.has_alloc _ _⟩
  | moduleBody module mark =>
      exact ⟨rfl, .alloc _ _, _, rfl, Arena.not_has_alloc _ _, Arena.has_alloc _ _⟩

theorem placed_addCall {inside : Context (Recorded β σ)} {old : Arena .frame Frame}
    (h : inside.host.Placed old) (hk : FramesKept old inside.frameCells) {frame : Ref .frame}
    (htop : inside.frames.top? = some frame) (hnew : ¬ old.Has frame)
    (hhas : inside.frameCells.Has frame) (attached : Option Nat) :
    (Journal.addCall inside attached).Placed inside.frameCells ∧
      Situation.placed.Holds (inside.journaling (Journal.addCall inside attached)) := by
  have hx : inside.host.Extends (Journal.addCall inside attached) :=
    Journal.extends_call _ _
  have hframe : inside.frames.top?.getD default = frame := by simp [htop]
  have hknown : (Journal.addCall inside attached).call? frame =
      some ⟨frame, attached, inside.plain⟩ := by
    unfold Journal.addCall
    rw [hframe]
    exact Journal.call?_snoc_self (h.call?_eq_none hnew)
  refine ⟨h.extend hx hk (fun hm => ?_) Or.inl Or.inl, frame, _, htop, hknown⟩
  rcases List.mem_append.mp hm with hold | hlast
  · exact Or.inl hold
  · rw [List.mem_singleton.mp hlast, hframe]
    exact Or.inr ⟨htop, hhas, .refl _⟩

theorem supplement_placed : Supplement (.placed : Ledger β σ) .placed where
  point {c} pending hc := by
    have hx : c.host.Extends { c.host with points := c.host.points ++ [⟨c.plain, pending⟩] } :=
      Journal.extends_point _ _
    exact hc.2.1.2.extend hx (.refl _) Or.inl Or.inl Or.inl
  birth {c} params code receiver hc := by
    have hx : c.host.Extends { c.host with
        births := c.host.births ++ [⟨c.capture params code receiver, c.plain⟩] } :=
      Journal.extends_birth _ _
    refine hc.2.1.2.extend hx (.refl _) Or.inl (fun hm => ?_) Or.inl
    rcases List.mem_append.mp hm with hold | hnew
    · exact Or.inl hold
    · obtain ⟨frame, home, hf, hh⟩ := hc.2.2.2
      rw [List.mem_singleton.mp hnew]
      refine Or.inr ⟨home, ?_⟩
      simp only [Context.capture, hf]
      exact hh
  binding {c} binding hc := by
    have hx : c.host.Extends { c.host with bindings := c.host.bindings ++ [binding] } :=
      Journal.extends_binding _ _
    exact hc.2.1.2.extend hx (.refl _) Or.inl Or.inl Or.inl
  attaching _ hc := hc.2.2.2
  call {c inside} attached hc _ ho := by
    obtain ⟨hhost, hk, frame, htop, hnew, hhas⟩ := ho.fresh
    have hplaced : inside.host.Placed c.frameCells := by
      rw [hhost]
      exact hc.2.1.2
    exact placed_addCall hplaced hk htop hnew hhas attached
  pass {c d block} receiver cls given hc ht hd hx hlawful hl := by
    have hx' : d.host.Extends
        (Journal.addPass d ⟨c.plain, receiver, cls⟩ block.code.number given) :=
      Journal.extends_pass _ _
    have hframes : d.frames = c.frames.push block.frame := hd.frames
    obtain ⟨birth, hb, rfl⟩ := (lawful_of_lawfulWith hc).2.2.exists_birth hc.1 ht
    have hborn := hx.birth hb
    have hdetached : Pass.Detached
        ⟨⟨c.plain, receiver, cls⟩, birth.block.code.number, given, d.plain⟩ birth d.frameCells := by
      refine ⟨hlawful.1.plain, ?_, ?_, (hlawful.2.1.births hborn).has, .refl _⟩
      · have hblocks : d.blocks = { c.blocks with live := c.blocks.live.tail } := hd.blocks
        show c.blocks = d.blocks.push birth.block
        rw [hblocks]
        exact (Stack.push_tail (hc.1.live_eq_of_target ht)).symm
      · show d.frames.top? = _
        rw [hframes]
        rfl
    obtain ⟨home, hhome⟩ := hl.births (List.mem_of_getElem? hborn)
    refine ⟨hl.extend hx' (.refl _) Or.inl Or.inl fun hm => ?_, birth.block.frame, home, ?_,
      hx'.call hhome⟩
    · rcases List.mem_append.mp hm with hold | hnew
      · exact Or.inl hold
      · rw [List.mem_singleton.mp hnew]
        exact Or.inr ⟨birth, hborn, hdetached⟩
    · show d.frames.top? = _
      rw [hframes]
      rfl

theorem starting_placed (config : Config) (errors : ErrorStream) (own : σ) (processId : Int64) :
    (lawfulWith (.placed : Ledger β σ) .placed).Allows
      (Codebase.starting config errors own processId)
      ((Journal.noteCall none : Run Signal (Recorded β σ) Unit)
        (Codebase.starting config errors own processId)) := by
  have hempty : (Codebase.starting config errors own processId :
      Context (Recorded β σ)).host.Placed {} := by
    constructor
    · intro call hm
      cases hm
    · intro birth hm
      cases hm
    · intro pass hm
      cases hm
  have hkept : FramesKept {} (Codebase.starting config errors own processId :
      Context (Recorded β σ)).frameCells := fun frame h => absurd h (Nat.not_lt_zero _)
  have htop : (Codebase.starting config errors own processId :
      Context (Recorded β σ)).frames.top? = some ⟨0⟩ := rfl
  obtain ⟨hl, hp⟩ := placed_addCall hempty hkept htop (Nat.not_lt_zero _) (Arena.has_alloc _ _) none
  exact Supplement.starting_allows config errors own processId hl hp

/-! ## Yields in the bodies of blocks -/

/-- A frame that is kept from two tables to a third has the same mark in both. -/
theorem FramesKept.mark_eq {first second last : Arena .frame Frame} {frame : Ref .frame}
    (h₁ : FramesKept first last) (h₂ : FramesKept second last) (hf : first.Has frame)
    (hs : second.Has frame) : (first.read frame).mark = (second.read frame).mark := by
  obtain ⟨_, hfirst, _⟩ := h₁ frame hf
  obtain ⟨_, hsecond, _⟩ := h₂ frame hs
  exact hfirst.symm.trans hsecond

theorem Context.isBlockGiven_of_top? {H : Host} {c : Context H} {frame : Ref .frame}
    (h : c.frames.top? = some frame) :
    c.isBlockGiven = decide ((c.frameCells.read frame).mark ≠ .absent) := by
  unfold isBlockGiven
  rw [h]
  rfl

/-- Code in the body of a detached block is given a block exactly when the call of the block's
frame was, and a yield there activates the block next below the running one. -/
theorem Pass.Detached.yieldTarget?_eq {pass : Pass β σ} {birth : Birth β σ} {home : Call β σ}
    {cells : Arena .frame Frame} (hpass : pass.Detached birth cells) (hhome : home.Placed cells)
    (hframe : home.frame = birth.block.frame) {here : Context (Plain β σ)}
    (hcalm : pass.scene.Calm here) :
    here.yieldTarget? = if home.scene.isBlockGiven then pass.scene.blocks.top? else none := by
  obtain ⟨hkept, hmark, _⟩ := hcalm.frameCells _ hpass.has
  have htop : here.frames.top? = some birth.block.frame := by
    rw [hcalm.frames]
    exact hpass.top
  have hsame : (pass.scene.frameCells.read birth.block.frame).mark =
      (home.scene.frameCells.read birth.block.frame).mark :=
    hpass.kept.mark_eq hhome.kept hpass.has (hframe ▸ hhome.has)
  have hgiven : here.isBlockGiven = home.scene.isBlockGiven := by
    rw [Context.isBlockGiven_of_top? htop, Context.isBlockGiven_of_top? hhome.top, hframe, hmark,
      hsame]
  unfold Context.yieldTarget?
  rw [hgiven, hcalm.blocks]

/-- A yield in the body of a block goes to the block next below on the stack, if the call in which
the block was created had one. -/
theorem yield_goes_to_next_below {codebase : Codebase β σ} {program : Program β σ}
    (hcode : codebase.All Quiet) (hp : program.All Quiet) (config : Config)
    (errors : ErrorStream) (own : σ) (processId : Int64) (depth : Nat) :
    let journal := codebase.journal program config errors own processId depth
    ∀ pass ∈ journal.passes, ∃ birth home, journal.births[pass.number]? = some birth ∧
      journal.call? birth.block.frame = some home ∧
      pass.yielding.site.blocks = pass.scene.blocks.push birth.block ∧
      -- Whatever quiet code has run in the body, a yield goes where one in the code of that call
      -- went exactly when the call had no block, or the same one on top.
      ∀ before : Run Signal (Plain β σ) Value, Quiet before ->
        let here := before.after pass.scene
        here.yieldTarget? =
          (if home.scene.isBlockGiven then pass.scene.blocks.top? else none) ∧
        (here.yieldTarget? = home.scene.yieldTarget? ↔ (home.scene.isBlockGiven = true ->
          pass.scene.blocks.top? = home.scene.blocks.top?)) ∧
        ∀ eval value receiver cls strict,
          match here.yieldTarget? with
          | some block => yieldBlock eval value receiver cls strict here =
              runEntered eval block here.suspend (block.receiverFor receiver cls) value strict
                (here.entering block cls)
          | none => yieldBlock eval value receiver cls strict here =
              .error (.raised (.failure (here.attach { cause := .noBlockGiven }))) here := by
  intro journal pass hm
  obtain ⟨cells, _, hplaced⟩ := supplement_placed.journal_holds hcode hp config errors own
    processId depth (starting_placed config errors own processId)
  obtain ⟨birth, hbirth, hdetached⟩ := hplaced.passes hm
  obtain ⟨home, hhome⟩ := hplaced.births (List.mem_of_getElem? hbirth)
  obtain ⟨hcall, hframe⟩ := Journal.frame_of_call? hhome
  refine ⟨birth, home, hbirth, hhome, hdetached.blocks, fun before hquiet => ?_⟩
  intro here
  obtain ⟨hbased, hcalm⟩ := (hquiet pass.scene hdetached.based).after
  have htarget := hdetached.yieldTarget?_eq (hplaced.calls hcall) hframe hcalm
  refine ⟨htarget, ?_, fun eval value receiver cls strict => ?_⟩
  · rw [htarget]
    unfold Context.yieldTarget?
    by_cases hgiven : home.scene.isBlockGiven = true
    · simp [hgiven]
    · simp [hgiven]
  · cases hfound : here.yieldTarget? with
    | some block => exact yieldBlock_of_target hbased hfound eval value receiver cls strict
    | none => exact yieldBlock_of_none hfound eval value receiver cls strict

/-! ## Forwarding -/

def countPass : Run Signal (Plain Bool Nat) Value := do
  modify fun c => { c with host := c.host + 1 }
  return .nil

theorem countPass_quiet : Quiet countPass :=
  Run.keeps_calm fun c _ => { Context.Calm.refl c with }

/-- Blocks that answer, and blocks that yield on in their first pass and answer from then on. -/
def Codebase.forwarding : Codebase Bool Nat where
  body := fun onward _ _ =>
    if onward then
      .andThen (.perform countPass) fun _ => .reading fun c =>
        if c.host < 2 then .yield none none none false else .perform (return .nil)
    else .perform (return .nil)
  callback := fun _ _ _ => .perform (return .nil)

/-- A method with a block creates another block, which the method that it is given to forwards. -/
def Program.forwarding : Program Bool Nat :=
  .capture .undeclared none false fun given =>
    .withBlock given <| .invoke .nil "outer" <| .capture .undeclared none true fun created =>
      .withBlock created <| .invoke .nil "middle" <| .reading fun c =>
        .withBlock ((c.blocks.top?.map fun block => block.code.number).getD 0) <|
          .invoke .nil "inner" (.yield none none none false)

/-- A method with a block creates another block; once it has ended, a method that is called with a
third block attaches that block again. -/
def Program.storing : Program Bool Nat :=
  .capture .undeclared none false fun given => .capture .undeclared none false fun stranger =>
    .andThen (.withBlock given <| .invoke .nil "outer" <|
      .capture .undeclared none true fun _ => .perform (return .nil)) fun _ =>
    .withBlock stranger <| .invoke .nil "middle" <|
      .withBlock 2 <| .invoke .nil "inner" (.yield none none none false)

def Codebase.forwardingJournal (program : Program Bool Nat) : Journal Bool Nat :=
  Codebase.forwarding.journal program {} .silent 0 0 3

/-- Both passes of the forwarded block find below it what was attached last before it. -/
theorem yield_goes_to_next_below_forwarding :
    (Codebase.forwardingJournal .forwarding).passes.length = 2 ∧ Quiet countPass ∧
    ∀ pass ∈ (Codebase.forwardingJournal .forwarding).passes, ∃ birth home,
      (Codebase.forwardingJournal .forwarding).births[pass.number]? = some birth ∧
      (Codebase.forwardingJournal .forwarding).call? birth.block.frame = some home ∧
      (countPass.after pass.scene).yieldTarget? =
        if home.scene.isBlockGiven then pass.scene.blocks.top? else none := by
  have hreturn : Quiet (return .nil : Run Signal (Plain Bool Nat) Value) := Run.Keeps.pure _
  have hcode : Codebase.forwarding.All Quiet := by
    refine ⟨fun onward _ _ => ?_, fun _ _ _ => hreturn⟩
    cases onward with
    | false => exact hreturn
    | true =>
        refine ⟨countPass_quiet, fun _ c => ?_⟩
        dsimp only
        split
        · trivial
        · exact hreturn
  have hp : Program.forwarding.All Quiet := fun _ _ _ => trivial
  refine ⟨by decide +kernel, countPass_quiet, fun pass hm => ?_⟩
  obtain ⟨birth, home, hbirth, hhome, _, hyield⟩ :=
    yield_goes_to_next_below hcode hp {} .silent 0 0 3 pass hm
  exact ⟨birth, home, hbirth, hhome, (hyield countPass countPass_quiet).1⟩

/-- The one pass was begun by a yield in the body that the other ran: on its frames, and below its
block. -/
def Pass.BegunIn (inner outer : Pass β σ) : Prop :=
  inner.yielding.site.frames.entries = outer.scene.frames.entries ∧
    inner.yielding.site.blocks.depth = outer.scene.blocks.depth

instance (inner outer : Pass β σ) : Decidable (inner.BegunIn outer) :=
  inferInstanceAs (Decidable (_ ∧ _))

/-- The block with number 1, created in a call with the block 0 and forwarded, yields to itself in
its body; the block with number 2, created in such a call and attached again after it, yields to
the block 1, which belongs to another call. -/
theorem attached_again_yields_elsewhere :
    (let journal := Codebase.forwardingJournal .forwarding
      ∃ outer ∈ journal.passes, ∃ inner ∈ journal.passes, inner.BegunIn outer ∧
        journal.attached? outer.scene = some 0 ∧ outer.number = 1 ∧ inner.number = 1) ∧
    (let journal := Codebase.forwardingJournal .storing
      ∃ outer ∈ journal.passes, ∃ inner ∈ journal.passes, inner.BegunIn outer ∧
        journal.attached? outer.scene = some 0 ∧ outer.number = 2 ∧ inner.number = 1) := by
  decide +kernel

end ExecutionContext
