import ExecutionContext.Proofs.Reattachment

/-! # Calls without a block

A method finds out whether it was called with a block from the mark on top of the stack
of marks, which should be `pending` just when a block was pushed for the call. An
activation puts the mark on top that the block captured. Where the block was created
while another one waited for its call, that mark is `pending` as well: every method
that the body calls without a block then counts as called with one, and its yields run
whatever block is left on the stack.
-/

namespace ExecutionContext

variable {β σ : Type}

/-! ## Recorded calls and their marks -/

def Call.IsMethod (call : Call β σ) : Prop :=
  (call.scene.frameCells.read call.frame).method.isSome

def Call.mark (call : Call β σ) : Attachment :=
  (call.scene.frameCells.read call.frame).mark

/-- The call was made in the body of the pass, with no block attached in between: its mark lies
right on the marks that the body began with. -/
def Call.PlainIn (call : Call β σ) (pass : Pass β σ) : Prop :=
  call.scene.marks.entries = call.mark :: pass.scene.marks.entries

instance (call : Call β σ) : Decidable call.IsMethod :=
  inferInstanceAs (Decidable (_ = true))

instance (call : Call β σ) (pass : Pass β σ) : Decidable (call.PlainIn pass) :=
  inferInstanceAs (Decidable (_ = _))

/-- Whether the block was created while another one waited for its call. -/
def Birth.awaited (birth : Birth β σ) : Bool :=
  decide (birth.scene.marks.top? = some .pending)

/-! ## The ledger -/

/-- The mark of a method lies on the one it was taken from. -/
def Call.Marked (call : Call β σ) : Prop :=
  call.IsMethod -> ∃ (below : Stack Attachment) (mark : Attachment),
    below.top? = some mark ∧ call.scene.marks = below.push mark.forCallee ∧
      call.mark = mark.forCallee

/-- Calls are recorded where they begin, under their marks, and the frames at every point are kept
to the end. -/
structure Journal.Marked (journal : Journal β σ) (cells : Arena .frame Frame) : Prop where
  calls : ∀ {call : Call β σ}, call ∈ journal.calls -> call.Placed cells ∧ call.Marked
  points : ∀ {point : Point β σ}, point ∈ journal.points ->
    point.scene.Based ∧ FramesKept point.scene.frameCells cells

theorem Journal.Marked.extend {journal new : Journal β σ} {old cells : Arena .frame Frame}
    (h : journal.Marked old) (hk : FramesKept old cells)
    (hcalls : ∀ {call : Call β σ}, call ∈ new.calls ->
      call ∈ journal.calls ∨ call.Placed cells ∧ call.Marked)
    (hpoints : ∀ {point : Point β σ}, point ∈ new.points ->
      point ∈ journal.points ∨ point.scene.Based ∧ FramesKept point.scene.frameCells cells) :
    new.Marked cells where
  calls hm := by
    rcases hcalls hm with hold | hnew
    · obtain ⟨hplaced, hmarked⟩ := h.calls hold
      exact ⟨hplaced.of_kept hk, hmarked⟩
    · exact hnew
  points hm := by
    rcases hpoints hm with hold | hnew
    · obtain ⟨hbased, hkept⟩ := h.points hold
      exact ⟨hbased, hkept.trans hk⟩
    · exact hnew

def Ledger.marked : Ledger β σ where
  Holds := Journal.Marked
  of_kept _ h hk := h.extend hk Or.inl Or.inl

/-- The code of a method begins under the mark that the call found, turned into its own. -/
theorem Context.OpensFrame.marked {c inside : Context (Recorded β σ)} (h : c.OpensFrame inside)
    (attached : Option Nat) :
    (⟨inside.frames.top?.getD default, attached, inside.plain⟩ : Call β σ).Marked := by
  cases h with
  | method receiver name mark top =>
      intro _
      refine ⟨c.marks, mark, top, rfl, ?_⟩
      show ((c.frameCells.alloc (c.methodFrame receiver name mark)).2.read
        (c.frameCells.alloc (c.methodFrame receiver name mark)).1).mark = _
      rw [Arena.read_alloc_self]
      rfl
  | moduleBody module mark top =>
      intro hmethod
      have hread : ((c.frameCells.alloc (c.moduleFrame module mark)).2.read
          (c.frameCells.alloc (c.moduleFrame module mark)).1).method.isSome := hmethod
      rw [Arena.read_alloc_self] at hread
      cases hread

theorem supplement_marked : Supplement (.marked : Ledger β σ) .anywhere where
  point {c} pending hc := by
    refine hc.2.1.2.extend (.refl _) Or.inl fun hm => ?_
    rcases List.mem_append.mp hm with hold | hnew
    · exact Or.inl hold
    · rw [List.mem_singleton.mp hnew]
      exact Or.inr ⟨hc.1.plain, .refl _⟩
  birth params code receiver hc := hc.2.1.2.extend (.refl _) Or.inl Or.inl
  binding binding hc := hc.2.1.2.extend (.refl _) Or.inl Or.inl
  attaching _ _ := trivial
  call {c inside} attached hc _ ho := by
    obtain ⟨hhost, hk, frame, htop, _, hhas⟩ := ho.fresh
    have hmarked : inside.host.Marked c.frameCells := by
      rw [hhost]
      exact hc.2.1.2
    refine ⟨hmarked.extend hk (fun hm => ?_) Or.inl, trivial⟩
    rcases List.mem_append.mp hm with hold | hnew
    · exact Or.inl hold
    · rw [List.mem_singleton.mp hnew]
      have hplain : inside.plain.frames.top? = some frame := htop
      have hframe : inside.frames.top?.getD default = frame := by simp [htop]
      have hplaced : (⟨inside.frames.top?.getD default, attached, inside.plain⟩ :
          Call β σ).Placed inside.frameCells := by
        rw [hframe]
        exact ⟨hplain, hhas, .refl _⟩
      exact Or.inr ⟨hplaced, ho.marked attached⟩
  pass receiver cls given _ _ _ _ _ hl := ⟨hl.extend (.refl _) Or.inl Or.inl, trivial⟩

theorem starting_marked (config : Config) (errors : ErrorStream) (own : σ) (processId : Int64) :
    (lawfulWith (.marked : Ledger β σ) .anywhere).Allows
      (Codebase.starting config errors own processId)
      ((Journal.noteCall none : Run Signal (Recorded β σ) Unit)
        (Codebase.starting config errors own processId)) := by
  refine Supplement.starting_allows config errors own processId ⟨?_, ?_⟩ trivial
  · intro call hm
    rw [List.mem_singleton.mp hm]
    refine ⟨⟨rfl, Arena.has_alloc _ _, .refl _⟩, fun hmethod => ?_⟩
    cases hmethod
  · intro point hm
    cases hm

/-! ## What the called method finds -/

theorem Attachment.forCallee_ne_absent (mark : Attachment) :
    mark.forCallee ≠ .absent ↔ mark = .pending := by
  cases mark <;> decide

/-- A method called plainly in the body of a block counts as called with a block just when the
block was created while another one waited. -/
theorem Call.PlainIn.mark_iff {call : Call β σ} {pass : Pass β σ} {birth : Birth β σ}
    (h : call.PlainIn pass) (hmethod : call.IsMethod) (hmarked : call.Marked)
    (htop : pass.scene.marks.top? = birth.scene.marks.top?) :
    call.mark ≠ .absent ↔ birth.awaited = true := by
  obtain ⟨below, mark, hbelow, hmarks, hmark⟩ := hmarked hmethod
  have hentries : below.entries = pass.scene.marks.entries := by
    unfold PlainIn at h
    rw [hmarks, Stack.entries_push] at h
    exact (List.cons.inj h).2
  have hpass : pass.scene.marks.top? = some mark := by
    rw [Stack.top?_eq_head?, ← hentries, ← Stack.top?_eq_head?]
    exact hbelow
  rw [hmark, Attachment.forCallee_ne_absent]
  simp [Birth.awaited, ← htop, hpass]

/-- Code that runs in the frame of a call sees the mark of the call. -/
theorem Call.Placed.isBlockGiven_eq {call : Call β σ} {cells : Arena .frame Frame}
    (h : call.Placed cells) {here : Context (Plain β σ)}
    (hkept : FramesKept here.frameCells cells) (hanchored : here.Anchored)
    (htop : here.frames.top? = some call.frame) :
    here.isBlockGiven = decide (call.mark ≠ .absent) := by
  obtain ⟨frame, _, hframe, hhas, _⟩ := hanchored
  have hsame : frame = call.frame := Option.some.inj (hframe.symm.trans htop)
  have hmark := hkept.mark_eq h.kept (hsame ▸ hhas) h.has
  rw [Context.isBlockGiven_of_top? htop, hmark]
  rfl

/-- A method called without a block, in the body of a block, has a block given exactly when one
waited for its call at the creation of the running block. -/
theorem plain_calls_follow_creation {codebase : Codebase β σ} {program : Program β σ}
    (hcode : codebase.All Quiet) (hp : program.All Quiet) (config : Config)
    (errors : ErrorStream) (own : σ) (processId : Int64) (depth : Nat) :
    let journal := codebase.journal program config errors own processId depth
    ∀ pass ∈ journal.passes, ∃ birth, journal.births[pass.number]? = some birth ∧
      ∀ call ∈ journal.calls, call.IsMethod -> call.PlainIn pass ->
        call.scene.isBlockGiven = birth.awaited ∧
        ∀ point ∈ journal.points, point.scene.frames.top? = some call.frame ->
          let here := point.scene
          here.isBlockGiven = birth.awaited ∧
          (birth.awaited = false -> ∀ eval value receiver cls strict,
            yieldBlock eval value receiver cls strict here =
              .error (.raised (.failure (here.attach { cause := .noBlockGiven }))) here) ∧
          -- Nobody attached this block to the call.
          (birth.awaited = true -> ∀ block, here.blocks.top? = some block ->
            ∀ eval value receiver cls strict,
              yieldBlock eval value receiver cls strict here =
                runEntered eval block here.suspend (block.receiverFor receiver cls) value strict
                  (here.entering block cls)) := by
  intro journal pass hpass
  obtain ⟨cells, hfaithful, hledger⟩ := supplement_marked.journal_holds hcode hp config errors own
    processId depth (starting_marked config errors own processId)
  obtain ⟨birth, hbirth, hcaptured⟩ := hfaithful.passes hpass
  refine ⟨birth, hbirth, fun call hcall hmethod hplain => ?_⟩
  obtain ⟨hplaced, hmarked⟩ := hledger.calls hcall
  have hiff := hplain.mark_iff hmethod hmarked hcaptured.mark
  have hgiven : decide (call.mark ≠ .absent) = birth.awaited := by
    rw [Bool.eq_iff_iff, decide_eq_true_iff]
    exact hiff
  refine ⟨(Context.isBlockGiven_of_top? hplaced.top).trans hgiven, fun point hpoint htop => ?_⟩
  intro here
  obtain ⟨hbased, hkept⟩ := hledger.points hpoint
  have hhere : here.isBlockGiven = birth.awaited :=
    (hplaced.isBlockGiven_eq hkept (hfaithful.points hpoint) htop).trans hgiven
  refine ⟨hhere, fun hno eval value receiver cls strict => ?_,
    fun hyes block hblock eval value receiver cls strict => ?_⟩
  · have hnone : here.yieldTarget? = none := by
      simp [Context.yieldTarget?, hhere, hno]
    exact yieldBlock_of_none hnone eval value receiver cls strict
  · have htarget : here.yieldTarget? = some block := by
      simp [Context.yieldTarget?, hhere, hyes, hblock]
    exact yieldBlock_of_target hbased htarget eval value receiver cls strict

/-! ## A method that runs a stranger -/

def Codebase.calling : Codebase Bool Unit where
  body := fun calls _ _ =>
    if calls then .invoke .nil "inner" (.yield none none none false) else .perform (return .nil)
  callback := fun _ _ _ => .perform (return .nil)

/-- A method that yields, called with a block that calls another method. That block is created
first, or while a stranger waits for a call. -/
def Program.calling (waiting : Bool) : Program Bool Unit :=
  .capture .undeclared none false fun stranger =>
    if waiting then
      .withBlock stranger <| .capture .undeclared none true fun created =>
        .withBlock created <| .invoke .nil "outer" (.yield none none none false)
    else
      .capture .undeclared none true fun created =>
        .withBlock stranger <| .withBlock created <|
          .invoke .nil "outer" (.yield none none none false)

def Codebase.callingJournal (waiting : Bool) : Journal Bool Unit :=
  Codebase.calling.journal (.calling waiting) {} .silent () 0 3

/-- The block created first calls a method plainly, and no block is given there. -/
theorem plain_calls_follow_creation_calling :
    (∃ pass ∈ (Codebase.callingJournal false).passes,
      ∃ call ∈ (Codebase.callingJournal false).calls, call.IsMethod ∧ call.PlainIn pass) ∧
    ∀ pass ∈ (Codebase.callingJournal false).passes, ∃ birth,
      (Codebase.callingJournal false).births[pass.number]? = some birth ∧
      ∀ call ∈ (Codebase.callingJournal false).calls, call.IsMethod -> call.PlainIn pass ->
        call.scene.isBlockGiven = birth.awaited := by
  have hreturn : Quiet (return .nil : Run Signal (Plain Bool Unit) Value) := Run.Keeps.pure _
  have hcode : Codebase.calling.All Quiet := by
    refine ⟨fun calls _ _ => ?_, fun _ _ _ => hreturn⟩
    cases calls with
    | false => exact hreturn
    | true => trivial
  have hp : (Program.calling false).All Quiet := fun _ _ => trivial
  refine ⟨by decide +kernel, fun pass hpass => ?_⟩
  obtain ⟨birth, hbirth, hcalls⟩ :=
    plain_calls_follow_creation hcode hp {} .silent () 0 3 pass hpass
  exact ⟨birth, hbirth, fun call hcall hmethod hplain => (hcalls call hcall hmethod hplain).1⟩

/-- The block 1, created while the block 0 waits, calls a method plainly; a block counts as given
there, and the method's yield runs the block 0. -/
theorem plain_call_runs_stranger :
    let journal := Codebase.callingJournal true
    ∃ pass ∈ journal.passes, ∃ call ∈ journal.calls, pass.number = 1 ∧ call.IsMethod ∧
      call.PlainIn pass ∧ call.scene.isBlockGiven = true ∧
      ∃ other ∈ journal.passes, other.yielding.site.frames.top? = some call.frame ∧
        other.number = 0 := by
  decide +kernel

end ExecutionContext
