import ExecutionContext.Proofs.Lineage

/-! # Runs that keep dynamic variables shared

While a run proceeds, the chain of the present activation grows, cells and their names
are kept, and whatever else is recorded belongs to activations that began meanwhile.
Writes, notes, the creation of blocks and every layer but a yield proceed in that way.
-/

namespace ExecutionContext

variable {β σ ε α : Type}

/-! ## The contract -/

namespace Context

/-- The context has its base, its blocks were born in the run, and the journal tells where its
dynamic variables come from. -/
structure Shares (c : Context (Recorded β (Diary σ))) : Prop where
  based : c.Based
  blocks : ∀ {block}, block ∈ c.blocks.live ->
    ∃ birth, c.host.births[block.code.number]? = some birth ∧ birth.block = block
  lineage : c.host.Lineage c.plain.store c.blockCount

/-- The present activation went on, with allowed names only, and all scenes recorded meanwhile are
its own or those of activations that began meanwhile. -/
structure Advances (allowed : String -> Prop) (c d : Context (Recorded β (Diary σ))) : Prop where
  chain : Chain.Grown allowed c.chain d.chain
  kept : c.plain.store.Kept d.plain.store
  count : c.blockCount ≤ d.blockCount
  host : c.host.Extends d.host
  scenes : ∀ scene ∈ d.host.scenes, scene ∈ c.host.scenes ∨
    scene.chain.activation? = c.chain.activation? ∨ scene.chain.Beyond c.bindings

/-- The present activation went on, and no pass of its own was recorded. -/
structure Proceeds (allowed : String -> Prop) (c d : Context (Recorded β (Diary σ))) : Prop
    extends c.Advances allowed d where
  passes : ∀ pass ∈ d.host.passes,
    pass ∈ c.host.passes ∨ pass.scene.chain.Beyond c.bindings

section Steps

variable {allowed wider : String -> Prop} {c d e : Context (Recorded β (Diary σ))}

theorem Advances.trans (h₁ : c.Advances allowed d) (h₂ : d.Advances allowed e) :
    c.Advances allowed e where
  chain := h₁.chain.trans h₂.chain
  kept := h₁.kept.trans h₂.kept
  count := Nat.le_trans h₁.count h₂.count
  host := h₁.host.trans h₂.host
  scenes scene hm := by
    rcases h₂.scenes scene hm with hold | hsame | hnew
    · exact h₁.scenes scene hold
    · exact Or.inr (Or.inl (hsame.trans h₁.chain.activation?_eq))
    · exact Or.inr (Or.inr (hnew.mono h₁.kept))

theorem Proceeds.refl (allowed : String -> Prop) (c : Context (Recorded β (Diary σ))) :
    c.Proceeds allowed c :=
  ⟨⟨.refl _ _, .refl _, Nat.le_refl _, .refl _, fun _ => Or.inl⟩, fun _ => Or.inl⟩

theorem Proceeds.trans (h₁ : c.Proceeds allowed d) (h₂ : d.Proceeds allowed e) :
    c.Proceeds allowed e where
  toAdvances := h₁.toAdvances.trans h₂.toAdvances
  passes pass hm := by
    rcases h₂.passes pass hm with hold | hnew
    · exact h₁.passes pass hold
    · exact Or.inr (hnew.mono h₁.kept)

structure Alike (c d : Context (Recorded β (Diary σ))) : Prop where
  store : d.plain.store = c.plain.store
  host : d.host = c.host
  count : d.blockCount = c.blockCount

theorem Alike.proceeds (h : c.Alike d) : c.Proceeds allowed d where
  chain := by
    rw [show d.chain = c.chain from congrArg Store.chain h.store]
    exact .refl _ _
  kept := by
    rw [h.store]
    exact .refl _
  count := Nat.le_of_eq h.count.symm
  host := by
    rw [h.host]
    exact .refl _
  scenes := by
    rw [h.host]
    exact fun _ => Or.inl
  passes := by
    rw [h.host]
    exact fun _ => Or.inl

theorem Proceeds.mono (h : c.Proceeds allowed d) (hw : ∀ name, allowed name -> wider name) :
    c.Proceeds wider d :=
  { h with chain := h.chain.mono hw }

end Steps

end Context

/-- Dynamic variables are shared: the contract of runs that declare allowed names only. -/
def Contract.proceeding (allowed : String -> Prop) : Contract (Recorded β (Diary σ)) where
  Holds := Context.Shares
  Links c d := c.SameStacks d ∧ c.Proceeds allowed d
  Faults _ := True
  refl c := ⟨.refl c, .refl allowed c⟩
  trans h₁ h₂ := ⟨h₁.1.trans h₂.1, h₁.2.trans h₂.2⟩

abbrev sharing : Contract (Recorded β (Diary σ)) :=
  .proceeding fun _ => True

section Sharing

variable {allowed : String -> Prop} {c d : Context (Recorded β (Diary σ))}

/-- What keeps the dynamic variables of a context in order keeps them shared. -/
theorem Run.Keeps.recorded_storing {run : Run ε (Plain β (Diary σ)) α}
    (h : run.Keeps (.storing allowed)) : run.recorded.Keeps (.proceeding allowed) := by
  intro c hc
  have hr := h c.plain ⟨hc.based.plain, hc.lineage.sound⟩
  have hlast : ∀ d : Context (Plain β (Diary σ)), (Contract.storing allowed).Holds d ->
      (Contract.storing allowed).Links c.plain d -> (Contract.proceeding allowed).Holds
        (d.recorded c.host) ∧ (Contract.proceeding allowed).Links c (d.recorded c.host) := by
    rintro d ⟨hbased, hsound⟩ ⟨hstacks, hgrown, hkept, hcount⟩
    have hlineage : (d.recorded c.host).host.Lineage d.store d.blockCount :=
      hc.lineage.advance hsound hkept (hgrown.mono fun _ _ => trivial) (Nat.le_of_eq hcount.symm) _
    refine ⟨⟨⟨hbased.frames, hbased.scopes, hbased.marks, hbased.blocks⟩, fun hm => ?_, hlineage⟩,
      ⟨hstacks.frames, hstacks.blocks, hstacks.marks, hstacks.saved, hstacks.scopes⟩,
      ⟨hgrown, hkept, Nat.le_of_eq hcount.symm, .own _ _, fun _ => Or.inl⟩, fun _ => Or.inl⟩
    have hblocks : d.blocks = c.blocks := hstacks.blocks
    exact hc.blocks (hblocks ▸ hm)
  unfold Run.recorded
  cases he : run c.plain with
  | ok a d =>
      rw [he] at hr
      exact hlast d hr.1 hr.2
  | error exit d =>
      rw [he] at hr
      exact ⟨hlast d hr.1.1 hr.1.2, fun _ _ => trivial⟩

/-! ## Notes and captures -/

theorem Context.Shares.noting (hc : c.Shares) (new : Journal β (Diary σ))
    (hown : new.own = c.host.own) (hx : c.host.Extends new) (hshows : c.host.Shows new c.plain)
    (hbirths : ∀ {number : Nat} {birth : Birth β (Diary σ)}, new.births[number]? = some birth ->
      c.host.births[number]? = some birth ∨
        birth.block.code.number = number ∧ birth.block.chain = birth.scene.chain)
    (hpasses : ∀ pass ∈ new.passes, pass ∈ c.host.passes ∨ new.Traces pass)
    (hyields : ∀ x ∈ new.passes, ∀ y ∈ new.passes, x.Together y) :
    (c.journaling new).Shares ∧ c.Advances allowed (c.journaling new) := by
  have hplain : (c.journaling new).plain = c.plain := by
    simp only [Context.plain, Context.journaling, hown]
  have hlineage : new.Lineage c.plain.store c.plain.blockCount :=
    Journal.Lineage.extend hc.lineage hx hshows hbirths hpasses hyields
  refine ⟨⟨⟨hc.based.frames, hc.based.scopes, hc.based.marks, hc.based.blocks⟩, fun hm => ?_, ?_⟩,
    ⟨.refl _ _, ?_, Nat.le_refl _, hx, fun scene hm => ?_⟩⟩
  · obtain ⟨birth, hbirth, hblock⟩ := hc.blocks hm
    exact ⟨birth, hx.birth hbirth, hblock⟩
  · rw [hplain]
    exact hlineage
  · rw [hplain]
    exact .refl _
  · rcases hshows.mem_scenes hm with hold | rfl
    · exact Or.inl hold
    · exact Or.inr (Or.inl rfl)

/-- A note about the present scene that is not about a pass. -/
theorem Contract.Allows.note_sharing {change : Context (Recorded β (Diary σ)) ->
      Journal β (Diary σ)} (hc : c.Shares) (hown : (change c).own = c.host.own)
    (hx : c.host.Extends (change c)) (hshows : c.host.Shows (change c) c.plain)
    (hbirths : ∀ {number : Nat} {birth : Birth β (Diary σ)},
      (change c).births[number]? = some birth -> c.host.births[number]? = some birth ∨
        birth.block.code.number = number ∧ birth.block.chain = birth.scene.chain)
    (hpasses : (change c).passes = c.host.passes) :
    (Contract.proceeding allowed).Allows c
      ((Run.note change : Run ε (Recorded β (Diary σ)) Unit) c) := by
  have hold : ∀ pass ∈ (change c).passes, pass ∈ c.host.passes := by
    rw [hpasses]
    exact fun _ => id
  obtain ⟨hnoted, hadvances⟩ := hc.noting (change c) hown hx hshows hbirths
    (fun pass hm => Or.inl (hold pass hm))
    fun x hx y hy => hc.lineage.yields x (hold x hx) y (hold y hy)
  exact ⟨hnoted, ⟨rfl, rfl, rfl, rfl, .refl _⟩, hadvances, fun pass hm => Or.inl (hold pass hm)⟩

theorem notePoint_sharing (pending : Option Nat) :
    (Journal.notePoint pending : Run ε (Recorded β (Diary σ)) Unit).Keeps (.proceeding allowed) :=
  fun c hc => Contract.Allows.note_sharing hc rfl (Journal.extends_point _ _)
    (.point c.host ⟨c.plain, pending⟩) Or.inl rfl

theorem noteCall_sharing (attached : Option Nat) :
    (Journal.noteCall attached : Run ε (Recorded β (Diary σ)) Unit).Keeps (.proceeding allowed) :=
  fun c hc => Contract.Allows.note_sharing hc rfl (Journal.extends_call _ _)
    (.call c.host ⟨c.frames.top?.getD default, attached, c.plain⟩) Or.inl rfl

theorem noteBinding_sharing (yielding : Yielding β (Diary σ)) (receiver : Value) :
    (Journal.noteBinding yielding receiver : Run ε (Recorded β (Diary σ)) Unit).Keeps
      (.proceeding allowed) :=
  fun c hc => Contract.Allows.note_sharing hc rfl (Journal.extends_binding _ _)
    { Journal.Shows.refl c.host c.plain with } Or.inl rfl

/-- The birth of a block captured here is recorded under its number. -/
theorem recordingBirth_sharing (hc : c.Shares) (params : Params) (code : Code (Numbered β))
    (receiver : Value) (hn : code.number = c.host.births.length) :
    (Program.recordingBirth c (c.capture params code receiver)).Shares ∧
      sharing.Links c (Program.recordingBirth c (c.capture params code receiver)) := by
  have hallows : sharing.Allows c ((Journal.noteBirth (c.capture params code receiver) c.plain :
      Run Signal (Recorded β (Diary σ)) Unit) c) := by
    refine Contract.Allows.note_sharing hc rfl (Journal.extends_birth _ _)
      (.birth c.host ⟨c.capture params code receiver, c.plain⟩) (fun hb => ?_) rfl
    rcases Journal.birth_of_snoc hb with hold | ⟨rfl, rfl⟩
    · exact Or.inl hold
    · exact Or.inr ⟨hn, rfl⟩
  exact hallows

theorem Context.Shares.capturing (hc : c.Shares) :
    c.capturing.Shares ∧ sharing.Links c c.capturing := by
  have hcount : c.blockCount ≤ c.capturing.blockCount := Nat.le_succ _
  have hlineage := hc.lineage.advance hc.lineage.sound (.refl _) (.refl _ _) hcount c.host.own
  exact ⟨⟨hc.based.capturing, hc.blocks, hlineage⟩, ⟨rfl, rfl, rfl, rfl, .refl _⟩,
    ⟨.refl _ _, .refl _, hcount, .refl _, fun _ => Or.inl⟩, fun _ => Or.inl⟩

theorem captureBlock_sharing (params : Params) (receiver : Option Value) (body : β) :
    (Program.captureBlock params receiver body :
      Run Signal (Recorded β (Diary σ)) Nat).Keeps sharing := by
  intro c hc
  rw [Program.captureBlock_eq hc.based]
  obtain ⟨hborn, hl⟩ := recordingBirth_sharing hc params (.body ⟨c.host.births.length, body⟩) _ rfl
  obtain ⟨hcaptured, hl'⟩ := hborn.capturing
  exact ⟨hcaptured, sharing.trans hl hl'⟩

/-! ## Layers that leave the dynamic variables alone -/

/-- A layer keeps dynamic variables shared when it neither opens nor closes on the chain. -/
theorem Layer.around_sharing {eval : Evaluator (Recorded β (Diary σ))} {F : Fault -> Prop}
    (hc : c.Shares)
    (hb : ∀ pattern receiver value strict,
      (eval.bind pattern receiver value strict).Keeps (Contract.balanced F))
    (l : Layer (Recorded β (Diary σ))) {code : Run Signal (Recorded β (Diary σ)) Value}
    (hcode : code.Keeps sharing) (hsame : l.codeAt eval code c = code)
    (hin : ∀ inside, l.Enters eval c inside -> inside.Shares ∧ c.Proceeds (fun _ => True) inside)
    (hback : ∀ d : Context (Recorded β (Diary σ)), d.Alike (l.giveBack c d))
    (hno : ∀ exit d, l.Refuses eval c exit d -> d = c) :
    sharing.Allows c (l.around eval code c) := by
  refine Layer.around_allows hc.based hb (fun _ h => h) l code ?_ ?_ ?_
  · intro inside he
    rw [hsame]
    exact Layer.rounds_keeps hcode eval.limit l inside (hin inside he).1
  · rintro inside d he hd ⟨hstacks, hp⟩
    have hgiven := he.sameStacks_giveBack hstacks
    have hall := ((hin inside he).2.trans hp).trans (hback d).proceeds
    refine ⟨hstacks, ⟨hgiven.based hc.based, fun hm => ?_, ?_⟩, hgiven, hall⟩
    · rw [hgiven.blocks] at hm
      obtain ⟨birth, hbirth, hblock⟩ := hc.blocks hm
      exact ⟨birth, hall.host.birth hbirth, hblock⟩
    · rw [(hback d).store, (hback d).host, (hback d).count]
      exact hd.lineage
  · intro exit d hr
    rw [hno exit d hr]
    exact ⟨⟨hc, sharing.refl c⟩, fun _ _ => trivial⟩

theorem Context.Shares.attaching (hc : c.Shares) {number : Nat} {birth : Birth β (Diary σ)}
    (hb : c.host.births[number]? = some birth) : (c.attaching birth.block).Shares where
  based := hc.based.attaching birth.block
  blocks hm := by
    rcases List.mem_cons.mp hm with rfl | hold
    · refine ⟨birth, ?_, rfl⟩
      rw [(hc.lineage.births hb).1]
      exact hb
    · exact hc.blocks hold
  lineage := hc.lineage

theorem Context.alike_attaching (c : Context (Recorded β (Diary σ))) (block : Block (Numbered β)) :
    c.Alike (c.attaching block) :=
  ⟨rfl, rfl, rfl⟩

end Sharing

end ExecutionContext
