import ExecutionContext.Proofs.Recording

/-! # The blocks of the current frame

Where calls take their blocks literally, the stack of blocks belongs to the current
frame: it is the stack of the frame's call, and that is the block attached to the call
on top of the stack of the frame in which the block was written. The frames' marks and
the stack of marks follow. A new frame keeps all this when the context it is opened in
offers a block of this sort, or none.
-/

namespace ExecutionContext

variable {β σ : Type}

/-! ## Frames and their calls -/

/-- The record of a call is right: its frame is marked as called with a block exactly when one is
attached, and this block lies on the stack of the frame that it captured. -/
structure Call.Sound (call : Call β σ) (journal : Journal β σ) (cells : Arena .frame Frame) :
    Prop where
  has : cells.Has call.frame
  mark : (cells.read call.frame).mark = if call.attached.isSome then .attached else .absent
  block : ∀ {number}, call.attached = some number -> ∃ birth home,
    journal.births[number]? = some birth ∧ birth.block.code.number = number ∧
    journal.call? birth.block.frame = some home ∧
    call.scene.blocks = home.scene.blocks.push birth.block ∧
    birth.block.mark = (cells.read birth.block.frame).mark

/-- The context runs code in the frame of a recorded call: with the blocks that the call found, and
the frame's mark on top. -/
structure Context.At (c : Context (Plain β σ)) (journal : Journal β σ) (frame : Ref .frame)
    (call : Call β σ) : Prop where
  top : c.frames.top? = some frame
  known : journal.call? frame = some call
  blocks : c.blocks = call.scene.blocks
  mark : c.marks.top? = some (c.frameCells.read frame).mark

/-- A yield from the context activates the block attached to the call, if any. -/
def Context.Aims (c : Context (Plain β σ)) (journal : Journal β σ) (call : Call β σ) : Prop :=
  match call.attached with
  | none => c.yieldTarget? = none
  | some number => ∃ birth, journal.births[number]? = some birth ∧
      birth.block.code.number = number ∧ c.yieldTarget? = some birth.block

/-- Every call is recorded right, all code ran in the frame of its call, and every pass ran the
block attached to the call around the yield. -/
structure Journal.Homely (journal : Journal β σ) (cells : Arena .frame Frame) : Prop where
  calls : ∀ {frame : Ref .frame} {call : Call β σ}, journal.call? frame = some call ->
    call.frame = frame ∧ call.Sound journal cells
  points : ∀ {point : Point β σ}, point ∈ journal.points -> point.pending = none ->
    point.scene.Based ∧
      ∃ frame call, point.scene.At journal frame call ∧ point.scene.Aims journal call
  passes : ∀ {pass : Pass β σ}, pass ∈ journal.passes ->
    journal.attached? pass.yielding.site = some pass.number

/-! ## The invariant under growth -/

section Growth

variable {journal new : Journal β σ} {cells : Arena .frame Frame} {call : Call β σ}

theorem Call.Sound.extend (h : call.Sound journal cells) (hx : journal.Extends new) :
    call.Sound new cells where
  has := h.has
  mark := h.mark
  block ha := by
    obtain ⟨birth, home, hb, hn, hh, hs, hm⟩ := h.block ha
    exact ⟨birth, home, hx.birth hb, hn, hx.call hh, hs, hm⟩

theorem Context.At.extend {c : Context (Plain β σ)} {frame : Ref .frame}
    (h : c.At journal frame call) (hx : journal.Extends new) : c.At new frame call :=
  ⟨h.top, hx.call h.known, h.blocks, h.mark⟩

theorem Context.Aims.extend {c : Context (Plain β σ)} (h : c.Aims journal call)
    (hx : journal.Extends new) : c.Aims new call := by
  unfold Aims at h ⊢
  cases ha : call.attached with
  | none =>
      rw [ha] at h
      exact h
  | some number =>
      rw [ha] at h
      obtain ⟨birth, hb, hn, ht⟩ := h
      exact ⟨birth, hx.birth hb, hn, ht⟩

theorem Journal.Extends.attached {H : Host} {c : Context H} {number : Nat}
    (hx : journal.Extends new) (h : journal.attached? c = some number) :
    new.attached? c = some number := by
  unfold Journal.attached? at h ⊢
  cases hf : c.frames.top? with
  | none => rw [hf] at h; cases h
  | some frame =>
      rw [hf] at h
      cases hc : journal.call? frame with
      | none => simp [hc] at h
      | some call =>
          simp only [hc, Option.bind_eq_bind, Option.bind_some] at h
          simpa [hx.call hc] using h

namespace Journal.Homely

theorem of_kept {kept : Arena .frame Frame} (own : σ) (h : journal.Homely cells)
    (hk : FramesKept cells kept) : { journal with own := own }.Homely kept where
  calls hc := by
    obtain ⟨hf, hs⟩ := h.calls hc
    obtain ⟨hh, hm, _⟩ := hk _ hs.has
    refine ⟨hf, hh, hm.trans hs.mark, fun ha => ?_⟩
    obtain ⟨birth, home, hb, hn, hhome, hst, hmark⟩ := hs.block ha
    obtain ⟨hfr, hsound⟩ := h.calls hhome
    obtain ⟨_, hm', _⟩ := hk _ (hfr ▸ hsound.has)
    exact ⟨birth, home, hb, hn, hhome, hst, hmark.trans hm'.symm⟩
  points hm hp := by
    obtain ⟨hbased, frame, call, ha, ht⟩ := h.points hm hp
    exact ⟨hbased, frame, call, ha.extend (.own journal own), ht.extend (.own journal own)⟩
  passes := h.passes

theorem extend (h : journal.Homely cells) (hx : journal.Extends new)
    (hcalls : ∀ {frame : Ref .frame} {call : Call β σ}, new.call? frame = some call ->
      journal.call? frame = some call ∨ call.frame = frame ∧ call.Sound new cells)
    (hpoints : ∀ {point : Point β σ}, point ∈ new.points -> point ∈ journal.points ∨
      (point.pending = none -> point.scene.Based ∧ ∃ frame call,
        point.scene.At new frame call ∧ point.scene.Aims new call))
    (hpasses : ∀ {pass : Pass β σ}, pass ∈ new.passes -> pass ∈ journal.passes ∨
      new.attached? pass.yielding.site = some pass.number) : new.Homely cells where
  calls hc := by
    rcases hcalls hc with hold | hnew
    · exact ⟨(h.calls hold).1, (h.calls hold).2.extend hx⟩
    · exact hnew
  points hm hp := by
    rcases hpoints hm with hold | hnew
    · obtain ⟨hbased, frame, call, ha, ht⟩ := h.points hold hp
      exact ⟨hbased, frame, call, ha.extend hx, ht.extend hx⟩
    · exact hnew hp
  passes hm := (hpasses hm).elim (fun hold => hx.attached (h.passes hold)) id

end Journal.Homely

end Growth

def Ledger.homely : Ledger β σ where
  Holds := Journal.Homely
  of_kept own h hk := h.of_kept own hk

/-! ## Situations -/

structure Context.Home (c : Context (Recorded β σ)) (frame : Ref .frame) (call : Call β σ) :
    Prop where
  place : c.plain.At c.host frame call
  has : c.frameCells.Has frame

/-- The block of that number was written in the frame. -/
structure Context.Wrote (c : Context (Recorded β σ)) (frame : Ref .frame) (number : Nat)
    (birth : Birth β σ) : Prop where
  known : c.host.births[number]? = some birth
  numbered : birth.block.code.number = number
  captured : birth.block.frame = frame
  mark : birth.block.mark = (c.frameCells.read frame).mark

/-- The block of that number waits for the next call, above the blocks of the frame in which it was
written. -/
structure Context.Waiting (c : Context (Recorded β σ)) (frame : Ref .frame) (call : Call β σ)
    (number : Nat) (birth : Birth β σ) : Prop extends c.Wrote frame number birth where
  has : c.frameCells.Has frame
  home : c.host.call? frame = some call
  blocks : c.blocks = call.scene.blocks.push birth.block
  pending : c.marks.top? = some .pending

section Situations

variable {c d : Context (Recorded β σ)} {frame : Ref .frame} {call : Call β σ} {number : Nat}
  {birth : Birth β σ}

theorem Context.Home.of_calm (h : c.Home frame call) (hd : c.Calm d)
    (hx : c.host.Extends d.host) : d.Home frame call where
  place := by
    have hmark : d.marks.top? = some (d.frameCells.read frame).mark := by
      rw [hd.marks, (hd.frameCells frame h.has).2.1]
      exact h.place.mark
    exact ⟨(congrArg Stack.top? hd.frames).trans h.place.top, hx.call h.place.known,
      hd.blocks.trans h.place.blocks, hmark⟩
  has := (hd.frameCells frame h.has).1

theorem Context.Wrote.of_calm (h : c.Wrote frame number birth) (hh : c.frameCells.Has frame)
    (hd : c.Calm d) (hx : c.host.Extends d.host) : d.Wrote frame number birth :=
  ⟨hx.birth h.known, h.numbered, h.captured, h.mark.trans (hd.frameCells frame hh).2.1.symm⟩

theorem Context.Waiting.of_calm (h : c.Waiting frame call number birth) (hd : c.Calm d)
    (hx : c.host.Extends d.host) : d.Waiting frame call number birth where
  toWrote := h.toWrote.of_calm h.has hd hx
  has := (hd.frameCells frame h.has).1
  home := hx.call h.home
  blocks := hd.blocks.trans h.blocks
  pending := (congrArg Stack.top? hd.marks).trans h.pending

end Situations

namespace Situation

def home : Situation β σ where
  Holds c := ∃ frame call, c.Home frame call
  of_calm := fun ⟨frame, call, h⟩ hd hx => ⟨frame, call, h.of_calm hd hx⟩

def writing (number : Nat) : Situation β σ where
  Holds c := ∃ frame call birth, c.Home frame call ∧ c.Wrote frame number birth
  of_calm := fun ⟨frame, call, birth, h, hw⟩ hd hx =>
    ⟨frame, call, birth, h.of_calm hd hx, hw.of_calm h.has hd hx⟩

/-- Between attaching the block of that number and the call that it is for. -/
def waiting (number : Nat) : Situation β σ where
  Holds c := ∃ frame call birth, c.Waiting frame call number birth
  of_calm := fun ⟨frame, call, birth, h⟩ hd hx => ⟨frame, call, birth, h.of_calm hd hx⟩

end Situation

/-! ## Where a yield aims -/

section Aims

variable {c : Context (Recorded β σ)} {frame : Ref .frame} {call : Call β σ}

/-- In the code of a recorded call, a yield aims at the block attached to the call. -/
theorem Context.Home.aims (hl : c.host.Homely c.frameCells)
    (h : c.Home frame call) : c.plain.Aims c.host call := by
  obtain ⟨hframe, hsound⟩ := hl.calls h.place.known
  subst hframe
  have htop : c.plain.frames.top? = some call.frame := h.place.top
  have hmark : (c.plain.frameCells.read call.frame).mark = _ := hsound.mark
  unfold Aims
  cases ha : call.attached with
  | none =>
      simp [Context.yieldTarget?, Context.isBlockGiven, htop, hmark, ha]
  | some number =>
      obtain ⟨birth, home, hb, hn, _, hs, _⟩ := hsound.block ha
      refine ⟨birth, hb, hn, ?_⟩
      have hblocks : c.plain.blocks.top? = some birth.block := by
        rw [h.place.blocks, hs, Stack.top?_push]
      simp [Context.yieldTarget?, Context.isBlockGiven, htop, hmark, ha, hblocks]

theorem Context.Home.attached (h : c.Home frame call) :
    c.host.attached? c = call.attached := by
  have htop : c.frames.top? = some frame := h.place.top
  simp [Journal.attached?, htop, h.place.known]

/-- A point in such code is recorded; one in the code that makes a call is of no concern. -/
theorem notePoint_homely {ε : Type} {P : Situation β σ} (pending : Option Nat)
    (hp : pending = none -> ∀ c, P.Holds c -> Situation.home.Holds c) :
    (Journal.notePoint pending : Run ε (Recorded β σ) Unit).Keeps (.recording .homely P) := by
  intro c hc
  have hx : c.host.Extends { c.host with points := c.host.points ++ [⟨c.plain, pending⟩] } :=
    Journal.extends_point _ _
  refine Contract.Allows.note hc hx (hc.2.1.extend hx Or.inl ?_ Or.inl)
  intro point hm
  rcases List.mem_append.mp hm with hold | hnew
  · exact Or.inl hold
  · rw [List.mem_singleton.mp hnew]
    refine Or.inr fun hnone => ?_
    obtain ⟨frame, call, h⟩ := hp hnone c hc.2.2
    exact ⟨hc.1.plain, frame, call, h.place.extend hx, (h.aims hc.2.1).extend hx⟩

end Aims

/-! ## New frames -/

/-- A new frame was opened for a call with the given block, which lies on the stack of the frame
that it captured. -/
structure Context.Opened (c inside : Context (Recorded β σ)) (frame : Ref .frame)
    (attached : Option Nat) : Prop where
  host : inside.host = c.host
  kept : FramesKept c.frameCells inside.frameCells
  fresh : ¬ c.frameCells.Has frame
  has : inside.frameCells.Has frame
  top : inside.frames.top? = some frame
  mark : (inside.frameCells.read frame).mark = if attached.isSome then .attached else .absent
  marks : inside.marks.top? = some (inside.frameCells.read frame).mark
  block : ∀ {number}, attached = some number -> ∃ birth home,
    c.host.births[number]? = some birth ∧ birth.block.code.number = number ∧
    c.host.call? birth.block.frame = some home ∧
    inside.blocks = home.scene.blocks.push birth.block ∧
    birth.block.mark = (c.frameCells.read birth.block.frame).mark

section Frames

variable {c inside : Context (Recorded β σ)} {frame : Ref .frame} {attached : Option Nat}

/-- Recording the call of a new frame leads into the code of a recorded call. -/
theorem Context.Opened.noteCall_homely {ε : Type} (ho : c.Opened inside frame attached)
    (hl : c.host.Homely c.frameCells) (hb : inside.Based) :
    (Contract.recording .homely .home).Allows inside
      ((Journal.noteCall attached : Run ε (Recorded β σ) Unit) inside) := by
  have hx : inside.host.Extends { inside.host with
      calls := inside.host.calls ++ [⟨inside.frames.top?.getD default, attached, inside.plain⟩] } :=
    Journal.extends_call _ _
  have htop : inside.frames.top?.getD default = frame := by simp [ho.top]
  rw [htop] at hx
  have hl' : inside.host.Homely inside.frameCells := by
    rw [ho.host]
    exact hl.of_kept c.host.own ho.kept
  -- The frame is new, so no earlier call can have recorded it.
  have hnone : inside.host.call? frame = none := by
    cases hcall : inside.host.call? frame with
    | none => rfl
    | some call =>
        rw [ho.host] at hcall
        obtain ⟨rfl, hs⟩ := hl.calls hcall
        exact absurd hs.has ho.fresh
  have hsound : (Call.mk frame attached inside.plain).Sound { inside.host with
      calls := inside.host.calls ++ [⟨frame, attached, inside.plain⟩] } inside.frameCells := by
    refine ⟨ho.has, ho.mark, fun ha => ?_⟩
    obtain ⟨birth, home, hbirth, hn, hhome, hs, hm⟩ := ho.block ha
    obtain ⟨hf, hsound⟩ := hl.calls hhome
    have hkept := (ho.kept _ (hf ▸ hsound.has)).2.1
    rw [← ho.host] at hbirth hhome
    exact ⟨birth, home, hx.birth hbirth, hn, hx.call hhome, hs, hm.trans hkept.symm⟩
  have hledger : Ledger.homely.Holds { inside.host with
      calls := inside.host.calls ++ [⟨frame, attached, inside.plain⟩] } inside.frameCells := by
    refine hl'.extend hx (fun hc => ?_) Or.inl Or.inl
    rcases Journal.call?_of_snoc hc with hold | ⟨rfl, rfl⟩
    · exact Or.inl hold
    · exact Or.inr ⟨rfl, hsound⟩
  have hhome : Situation.home.Holds (inside.journaling { inside.host with
      calls := inside.host.calls ++ [⟨frame, attached, inside.plain⟩] }) :=
    ⟨frame, _, ⟨ho.top, Journal.call?_snoc_self hnone, rfl, ho.marks⟩, ho.has⟩
  unfold Journal.noteCall
  refine Contract.Allows.note_of hb ?_ ?_ ?_
  · rw [htop]; exact hx
  · rw [htop]; exact hledger
  · rw [htop]; exact hhome

/-- The next call from the context has the given block. -/
structure Context.Offers (c : Context (Recorded β σ)) (attached : Option Nat) : Prop where
  mark : ∀ {mark}, c.marks.top? = some mark ->
    mark.forCallee = if attached.isSome then .attached else .absent
  block : ∀ {number}, attached = some number -> ∃ birth home,
    c.host.births[number]? = some birth ∧ birth.block.code.number = number ∧
    c.host.call? birth.block.frame = some home ∧
    c.blocks = home.scene.blocks.push birth.block ∧
    birth.block.mark = (c.frameCells.read birth.block.frame).mark

theorem Context.Home.offers {call : Call β σ} (hl : c.host.Homely c.frameCells)
    (h : c.Home frame call) : c.Offers none where
  mark := by
    intro mark hm
    obtain ⟨rfl, hs⟩ := hl.calls h.place.known
    have htop : c.marks.top? = some (c.frameCells.read call.frame).mark := h.place.mark
    rw [htop, hs.mark] at hm
    cases hm
    split <;> rfl
  block ha := by cases ha

theorem Context.Waiting.offers {call : Call β σ} {number : Nat} {birth : Birth β σ}
    (h : c.Waiting frame call number birth) : c.Offers (some number) where
  mark := by
    intro mark hm
    rw [h.pending] at hm
    cases hm
    rfl
  block ha := by
    cases ha
    refine ⟨birth, call, h.known, h.numbered, ?_, h.blocks, ?_⟩
    · rw [h.captured]; exact h.home
    · rw [h.captured]; exact h.mark

theorem Context.Offers.opened (ho : c.Offers attached) {mark : Attachment}
    (hm : c.marks.top? = some mark) (receiver : Value) (method : String) :
    c.Opened (c.invoking receiver method mark)
      (c.frameCells.alloc (c.methodFrame receiver method mark)).1 attached where
  host := rfl
  kept := .alloc _ _
  fresh := Arena.not_has_alloc _ _
  has := Arena.has_alloc _ _
  top := rfl
  mark := by
    rw [Context.invoking, Arena.read_alloc_self]
    exact ho.mark hm
  marks := by
    rw [Context.invoking, Arena.read_alloc_self]
    rfl
  block := ho.block

theorem Context.Home.opened {call : Call β σ} (hl : c.host.Homely c.frameCells)
    (h : c.Home frame call) {mark : Attachment} (hm : c.marks.top? = some mark)
    (module : Ref .module) :
    c.Opened (c.openingModule module mark)
      (c.frameCells.alloc (c.moduleFrame module mark)).1 (c.host.attached? c) where
  host := rfl
  kept := .alloc _ _
  fresh := Arena.not_has_alloc _ _
  has := Arena.has_alloc _ _
  top := rfl
  mark := by
    rw [Context.openingModule, Arena.read_alloc_self, h.attached]
    obtain ⟨rfl, hs⟩ := hl.calls h.place.known
    have htop : c.marks.top? = some (c.frameCells.read call.frame).mark := h.place.mark
    rw [htop] at hm
    cases hm
    exact hs.mark
  marks := by
    rw [Context.openingModule, Arena.read_alloc_self]
    exact hm
  block ha := by
    rw [h.attached] at ha
    obtain ⟨birth, home, hb, hn, hhome, hs, hmark⟩ := (hl.calls h.place.known).2.block ha
    exact ⟨birth, home, hb, hn, hhome, h.place.blocks.trans hs, hmark⟩

end Frames

end ExecutionContext
