import ExecutionContext.Proofs.Calm
import ExecutionContext.Proofs.Program

/-! # Invariants of recorded runs

The journal of a run only grows. An invariant of recorded contexts is carried through a
run by a contract whose runs are calm and extend the journal; it is kept by an operation
at a leaf if it does not look at the evaluator's own state, and by a layer if it holds
inside the opened layer and comes back out of it.
-/

namespace ExecutionContext

variable {β σ ε α : Type}

/-! ## Journals that grow -/

namespace Journal

/-- Everything recorded in the one journal is recorded in the other, at the same places. -/
structure Extends (old new : Journal β σ) : Prop where
  points : old.points <+: new.points
  calls : old.calls <+: new.calls
  births : old.births <+: new.births
  passes : old.passes <+: new.passes
  bindings : old.bindings <+: new.bindings

theorem Extends.refl (journal : Journal β σ) : journal.Extends journal :=
  ⟨List.prefix_refl _, List.prefix_refl _, List.prefix_refl _, List.prefix_refl _,
    List.prefix_refl _⟩

theorem Extends.trans {old new newer : Journal β σ} (h₁ : old.Extends new)
    (h₂ : new.Extends newer) : old.Extends newer :=
  ⟨h₁.points.trans h₂.points, h₁.calls.trans h₂.calls, h₁.births.trans h₂.births,
    h₁.passes.trans h₂.passes, h₁.bindings.trans h₂.bindings⟩

theorem Extends.birth {old new : Journal β σ} (h : old.Extends new) {number : Nat}
    {birth : Birth β σ} (hb : old.births[number]? = some birth) :
    new.births[number]? = some birth := by
  obtain ⟨more, hm⟩ := h.births
  obtain ⟨hlt, _⟩ := List.getElem?_eq_some_iff.mp hb
  rw [← hm, List.getElem?_append_left hlt, hb]

/-- After one more birth, a number is an old one, or that of the new block. -/
theorem birth_of_snoc {births : List (Birth β σ)} {new birth : Birth β σ} {number : Nat}
    (h : (births ++ [new])[number]? = some birth) :
    births[number]? = some birth ∨ number = births.length ∧ birth = new := by
  rcases Nat.lt_or_ge number births.length with hlt | hge
  · exact Or.inl ((List.getElem?_append_left hlt).symm.trans h)
  · rw [List.getElem?_append_right hge, List.getElem?_singleton] at h
    split at h
    · exact Or.inr ⟨by omega, (Option.some.inj h).symm⟩
    · cases h

theorem Extends.call {old new : Journal β σ} (h : old.Extends new) {frame : Ref .frame}
    {call : Call β σ} (hc : old.call? frame = some call) : new.call? frame = some call := by
  obtain ⟨more, hm⟩ := h.calls
  unfold call? at hc ⊢
  rw [← hm, List.find?_append, hc]
  rfl

/-- After one more call, a record is an old one, or that of the new call. -/
theorem call?_of_snoc {journal : Journal β σ} {new call : Call β σ} {frame : Ref .frame}
    (h : { journal with calls := journal.calls ++ [new] }.call? frame = some call) :
    journal.call? frame = some call ∨ new.frame = frame ∧ call = new := by
  unfold call? at h ⊢
  rw [List.find?_append] at h
  cases hold : journal.calls.find? (fun call => decide (call.frame = frame)) with
  | some old =>
      rw [hold] at h
      exact Or.inl h
  | none =>
      rw [hold] at h
      by_cases hf : new.frame = frame
      · simp [hf] at h
        exact Or.inr ⟨hf, h.symm⟩
      · simp [hf] at h

theorem call?_snoc_self {journal : Journal β σ} {new : Call β σ}
    (h : journal.call? new.frame = none) :
    { journal with calls := journal.calls ++ [new] }.call? new.frame = some new := by
  unfold call? at h ⊢
  rw [List.find?_append, h]
  simp

theorem Extends.own (journal : Journal β σ) (own : σ) :
    journal.Extends { journal with own := own } :=
  { Extends.refl journal with }

/-! One more record of each sort. -/

theorem extends_point (journal : Journal β σ) (point : Point β σ) :
    journal.Extends { journal with points := journal.points ++ [point] } :=
  { Extends.refl journal with points := List.prefix_append _ _ }

theorem extends_call (journal : Journal β σ) (call : Call β σ) :
    journal.Extends { journal with calls := journal.calls ++ [call] } :=
  { Extends.refl journal with calls := List.prefix_append _ _ }

theorem extends_birth (journal : Journal β σ) (birth : Birth β σ) :
    journal.Extends { journal with births := journal.births ++ [birth] } :=
  { Extends.refl journal with births := List.prefix_append _ _ }

theorem extends_pass (journal : Journal β σ) (pass : Pass β σ) :
    journal.Extends { journal with passes := journal.passes ++ [pass] } :=
  { Extends.refl journal with passes := List.prefix_append _ _ }

theorem extends_binding (journal : Journal β σ) (binding : Binding β σ) :
    journal.Extends { journal with bindings := journal.bindings ++ [binding] } :=
  { Extends.refl journal with bindings := List.prefix_append _ _ }

end Journal

/-! ## The contract of an invariant -/

/-- What must hold of a journal, given the frames; the evaluator's own state does not matter. -/
structure Ledger (β σ : Type) where
  Holds : Journal β σ -> Arena .frame Frame -> Prop
  of_kept : ∀ {journal : Journal β σ} {old new : Arena .frame Frame} (own : σ),
    Holds journal old -> FramesKept old new -> Holds { journal with own := own } new

/-- What must hold of the context where code runs; calm code does not end it. -/
structure Situation (β σ : Type) where
  Holds : Context (Recorded β σ) -> Prop
  of_calm : ∀ {c d : Context (Recorded β σ)},
    Holds c -> c.Calm d -> c.host.Extends d.host -> Holds d

def Situation.anywhere : Situation β σ where
  Holds _ := True
  of_calm _ _ _ := trivial

/-- The ledger and the place are kept, by calm runs that extend the journal. -/
def Contract.recording (L : Ledger β σ) (P : Situation β σ) : Contract (Recorded β σ) where
  Holds c := c.Based ∧ L.Holds c.host c.frameCells ∧ P.Holds c
  Links c d := c.Calm d ∧ c.host.Extends d.host
  Faults _ := True
  refl c := ⟨.refl c, .refl c.host⟩
  trans h₁ h₂ := ⟨h₁.1.trans h₂.1, h₁.2.trans h₂.2⟩

section Recording

variable {L : Ledger β σ} {P Q : Situation β σ} {c d : Context (Recorded β σ)}

/-- Calm changes beside the journal keep the contract. -/
theorem Contract.holds_of_calm (hc : (Contract.recording L P).Holds c) (hd : c.Calm d) (own : σ)
    (ho : d.host = { c.host with own := own }) :
    (Contract.recording L P).Holds d ∧ (Contract.recording L P).Links c d := by
  have hx : c.host.Extends d.host := ho ▸ .own c.host own
  refine ⟨⟨hd.sameStacks.based hc.1, ?_, P.of_calm hc.2.2 hd hx⟩, hd, hx⟩
  rw [ho]
  exact L.of_kept own hc.2.1 hd.frameCells

theorem Contract.Allows.of_calm {run : Run ε (Recorded β σ) α}
    (hc : (Contract.recording L P).Holds c) (h : Contract.calm.Allows c (run c))
    (ho : ∃ own, (run.after c).host = { c.host with own := own }) :
    (Contract.recording L P).Allows c (run c) := by
  obtain ⟨own, ho⟩ := ho
  cases hr : run c with
  | ok a d =>
      rw [hr] at h
      rw [Run.after_of_ok hr] at ho
      exact Contract.holds_of_calm hc h.2 own ho
  | error exit d =>
      rw [hr] at h
      rw [Run.after_of_error hr] at ho
      exact ⟨Contract.holds_of_calm hc h.1.2 own ho, fun _ _ => trivial⟩

theorem Run.Keeps.recorded_calm {run : Run ε (Plain β σ) α} (h : run.Keeps .calm) :
    run.recorded.Keeps .calm := by
  intro c hc
  have hr := h c.plain hc.plain
  have hstep : ∀ d : Context (Plain β σ), c.plain.Calm d -> c.Calm (d.recorded c.host) :=
    fun d hd => { hd with }
  unfold Run.recorded
  cases he : run c.plain with
  | ok a d =>
      rw [he] at hr
      exact ⟨(hstep d hr.2).sameStacks.based hc, hstep d hr.2⟩
  | error exit d =>
      rw [he] at hr
      exact ⟨⟨(hstep d hr.1.2).sameStacks.based hc, hstep d hr.1.2⟩, fun _ _ => trivial⟩

theorem Run.Keeps.recorded {run : Run ε (Plain β σ) α} (h : run.Keeps .calm) :
    run.recorded.Keeps (.recording L P) := by
  intro c hc
  refine Contract.Allows.of_calm hc (h.recorded_calm c hc.1) ?_
  unfold Run.after Run.recorded
  cases run c.plain with
  | ok a d => exact ⟨d.host, rfl⟩
  | error exit d => exact ⟨d.host, rfl⟩

theorem packArgs_recording (args : List Value) :
    (packArgs args : Run Signal (Recorded β σ) Value).Keeps (.recording L P) := by
  intro c hc
  have hp : Contract.calm.Allows c ((packArgs args : Run Signal (Recorded β σ) Value) c) :=
    packArgs_calm args c hc.1
  exact Contract.Allows.of_calm hc hp ⟨c.host.own, rfl⟩

theorem Contract.holds_capturing (hc : (Contract.recording L P).Holds c) :
    (Contract.recording L P).Holds c.capturing ∧ (Contract.recording L P).Links c c.capturing :=
  Contract.holds_of_calm hc { Context.Calm.refl c with } c.host.own rfl

/-- The operations that leave the stacks and the captured context alone. -/
abbrev Quiet (op : Run Signal (Plain β σ) Value) : Prop :=
  op.Keeps .calm

/-! ## Notes -/

/-- Noting something in the journal is calm. -/
theorem Context.calm_journaling (c : Context (Recorded β σ)) (journal : Journal β σ) :
    c.Calm (c.journaling journal) :=
  { Context.Calm.refl c with }

theorem note_calm (change : Context (Recorded β σ) -> Journal β σ) :
    (Run.note change : Run ε (Recorded β σ) Unit).Keeps .calm :=
  fun c hc => ⟨(c.calm_journaling _).sameStacks.based hc, c.calm_journaling _⟩

/-- A note leads to a situation when it extends the journal, and the ledger allows the addition. -/
theorem Contract.Allows.note_of {change : Context (Recorded β σ) -> Journal β σ} (hc : c.Based)
    (hx : c.host.Extends (change c)) (hl : L.Holds (change c) c.frameCells)
    (hp : P.Holds (c.journaling (change c))) :
    (Contract.recording L P).Allows c ((Run.note change : Run ε (Recorded β σ) Unit) c) :=
  ⟨⟨(c.calm_journaling _).sameStacks.based hc, hl, hp⟩, c.calm_journaling _, hx⟩

theorem Contract.Allows.note {change : Context (Recorded β σ) -> Journal β σ}
    (hc : (Contract.recording L P).Holds c) (hx : c.host.Extends (change c))
    (hl : L.Holds (change c) c.frameCells) :
    (Contract.recording L P).Allows c ((Run.note change : Run ε (Recorded β σ) Unit) c) :=
  .note_of hc.1 hx hl (P.of_calm hc.2.2 (c.calm_journaling _) hx)

/-! ## Layers -/

variable {eval : Evaluator (Recorded β σ)}

/-- A yield that is watched binds calmly when the evaluator does. -/
theorem Evaluator.watching_bind_calm
    (hb : ∀ pattern receiver value strict, (eval.bind pattern receiver value strict).Keeps .calm)
    (yielding : Yielding β σ) (pattern : Pattern) (receiver value : Value) (strict : Bool) :
    ((eval.watching yielding).bind pattern receiver value strict).Keeps .calm :=
  (note_calm _).bind fun _ => hb pattern receiver value strict

@[simp] theorem Layer.giveBack_host (c d : Context (Recorded β σ)) (l : Layer (Recorded β σ)) :
    (l.giveBack c d).host = d.host := by
  cases l <;> rfl

@[simp] theorem Layer.giveBack_frameCells {H : Host} (c d : Context H) (l : Layer H) :
    (l.giveBack c d).frameCells = d.frameCells := by
  cases l <;> rfl

/-- A layer keeps the ledger and its situation around code that keeps the ledger in a situation
inside. -/
theorem Layer.around_recording (Q : Situation β σ) (hc : (Contract.recording L P).Holds c)
    (hb : ∀ pattern receiver value strict, (eval.bind pattern receiver value strict).Keeps .calm)
    (l : Layer (Recorded β σ)) (code : Run Signal (Recorded β σ) Value)
    (hin : ∀ inside, l.Enters eval c inside -> c.host.Extends inside.host ∧
      (Contract.recording L Q).Allows inside
        (l.rounds (l.codeAt eval code c) eval.limit inside))
    (hno : ∀ exit d, l.Refuses eval c exit d ->
      c.host.Extends d.host ∧ L.Holds d.host d.frameCells) :
    (Contract.recording L P).Allows c (l.around eval code c) := by
  have hbalanced : ∀ pattern receiver value strict,
      (eval.bind pattern receiver value strict).Keeps (.balanced fun _ => True) :=
    fun _ _ _ _ => (hb _ _ _ _).balanced
  have hf : ∀ fault, (Contract.recording L Q).Faults fault ->
      (Contract.recording L P).Faults fault := fun _ _ => trivial
  refine around_allows hc.1 hbalanced hf l code (fun inside he => (hin inside he).2) ?_ ?_
  · intro inside d he hd hl
    have hback := he.calm_giveBack (he.grown hc.1 hb) hl.1
    have hx : c.host.Extends (l.giveBack c d).host := by
      rw [giveBack_host]
      exact (hin inside he).1.trans hl.2
    refine ⟨hl.1.sameStacks, ⟨hback.sameStacks.based hc.1, ?_, P.of_calm hc.2.2 hback hx⟩,
      hback, hx⟩
    rw [giveBack_host, giveBack_frameCells]
    exact hd.2.1
  · intro exit d hr
    have hcalm := hr.calm hc.1 hb
    obtain ⟨hx, hl⟩ := hno exit d hr
    exact ⟨⟨⟨hcalm.sameStacks.based hc.1, hl, P.of_calm hc.2.2 hcalm hx⟩, hcalm, hx⟩,
      fun _ _ => trivial⟩

/-- A layer that is not a yield leads to a situation inside, or leaves everything alone. -/
theorem Layer.around_recording_of_inside (Q : Situation β σ)
    (hc : (Contract.recording L P).Holds c)
    (hb : ∀ pattern receiver value strict, (eval.bind pattern receiver value strict).Keeps .calm)
    (l : Layer (Recorded β σ)) {code : Run Signal (Recorded β σ) Value}
    (hat : l.codeAt eval code c = code)
    (hin : ∀ inside, l.Enters eval c inside -> inside.host = c.host ∧
      (Contract.recording L Q).Allows inside (l.rounds code eval.limit inside))
    (hno : ∀ exit d, l.Refuses eval c exit d -> d = c) :
    (Contract.recording L P).Allows c (l.around eval code c) := by
  refine l.around_recording Q hc hb code (fun inside hi => ?_) fun exit d hr => ?_
  · rw [hat, (hin inside hi).1]
    exact ⟨.refl _, (hin inside hi).2⟩
  · rw [hno exit d hr]
    exact ⟨.refl _, hc.2.1⟩

/-- A yield keeps the ledger and its situation when its arguments are prepared inside the block
under the ledger, and its body runs in a situation inside. -/
theorem yieldBlock_recording (R Q : Situation β σ) (hc : (Contract.recording L P).Holds c)
    (hb : ∀ pattern receiver value strict, (eval.bind pattern receiver value strict).Keeps .calm)
    (value receiver : Option Value) (cls : Option (Ref .module)) (strict : Bool)
    (hprep : ∀ block, c.yieldTarget? = some block ->
      (Contract.recording L R).Allows (c.entering block cls)
        (prepareArgs eval block (block.receiverFor receiver cls) value strict
          (c.entering block cls)))
    (hbody : ∀ block args bound, c.yieldTarget? = some block ->
      (Contract.recording L R).Holds bound ->
      (Contract.recording L R).Links (c.entering block cls) bound ->
      Q.Holds { bound with marks := bound.marks.push block.mark } ∧
      (runCode eval block.code (block.receiverFor receiver cls) args).Keeps
        ((Contract.recording L Q).startingAt { bound with marks := bound.marks.push block.mark })) :
    (Contract.recording L P).Allows c (yieldBlock eval value receiver cls strict c) := by
  refine Layer.around_recording Q hc hb (.yield value receiver cls strict) Run.exhausted ?_ ?_
  · rintro inside ⟨block, args, bound, ht, hp, rfl⟩
    have hbound := hprep block ht
    rw [hp] at hbound
    obtain ⟨hq, hcode⟩ := hbody block args bound ht hbound.1 hbound.2
    obtain ⟨⟨hbased, hl, _⟩, hcalm, hx⟩ := hbound
    refine ⟨hx, Contract.Allows.of_startingAt (Layer.rounds_keeps ?_ eval.limit _ _
      ⟨⟨⟨hbased.frames, hbased.scopes, hbased.marks, hbased.blocks⟩, hl, hq⟩, Contract.refl _ _⟩)⟩
    rw [Layer.codeAt_yield hc.1 ht hp]
    exact hcode
  · rintro exit d (⟨_, rfl, _⟩ | ⟨block, bound, ht, hp, rfl⟩)
    · exact ⟨.refl _, hc.2.1⟩
    · have hbound := hprep block ht
      rw [hp] at hbound
      exact ⟨hbound.1.2.2, hbound.1.1.2.1⟩

/-- Preparing the arguments of a watched yield keeps the ledger when the binding's note does. -/
theorem prepareArgs_recording (hc : (Contract.recording L P).Holds c)
    (hb : ∀ pattern receiver value strict,
      (eval.bind pattern receiver value strict).Keeps (.recording L P))
    (yielding : Yielding β σ) (block : Block (Numbered β)) (receiver : Value)
    (value : Option Value) (strict : Bool)
    (hnote : ∀ heap, L.Holds { c.host with bindings := c.host.bindings ++
      [⟨yielding, receiver, { c with heap := heap }.plain⟩] } c.frameCells) :
    (Contract.recording L P).Allows c
      (prepareArgs (eval.watching yielding) block receiver value strict c) := by
  have hheap : ∀ heap : Heap, (Contract.recording L P).Holds { c with heap := heap } ∧
      (Contract.recording L P).Links c { c with heap := heap } := fun heap =>
    Contract.holds_of_calm hc { Context.Calm.refl c with } c.host.own rfl
  refine Contract.Allows.prepareArgs hheap block receiver value strict
    fun heap pattern value _ => ?_
  refine Contract.Allows.bind (Contract.Allows.note (hheap heap).1 ?_ (hnote heap))
    fun _ => hb pattern receiver value strict
  exact Journal.extends_binding _ _

/-! ## The default binder -/

theorem Codebase.default_bind_calm (code : Codebase β σ) (depth : Nat) (pattern : Pattern)
    (receiver value : Value) (strict : Bool) :
    ((code.evaluator .default depth).bind pattern receiver value strict).Keeps .calm := by
  rw [Codebase.evaluator_bind]
  exact (bindDynamic_calm pattern value strict).recorded_calm

theorem Binder.default_recording (pattern : Pattern) (receiver value : Value) (strict : Bool) :
    (Binder.default pattern receiver value strict : Run Failure (Plain β σ) Unit).recorded.Keeps
      (.recording L P) :=
  (bindDynamic_calm pattern value strict).recorded

end Recording

end ExecutionContext
