import ExecutionContext.Proofs.Proceeding

/-! # Activations, and the variables declared in them

A yield begins an activation on the chain that its block captured, behind a link of its
own, and puts the chain of its caller back. Inside, the parameters are all that is
declared until the first pass is recorded, and every pass recorded since belongs to the
yield or to activations that began within.
-/

namespace ExecutionContext

variable {β σ ε α : Type}

section Yielding

variable {c d : Context (Recorded β (Diary σ))}

/-! ## Yields -/

/-- Entering a born block begins an activation on the chain that it captured. -/
theorem Context.Shares.entering (hc : c.Shares) {birth : Birth β (Diary σ)} {number : Nat}
    (hb : c.host.births[number]? = some birth) (cls : Option (Ref .module)) :
    (c.entering birth.block cls).Shares where
  based := hc.based.entering birth.block cls
  blocks hm := hc.blocks (List.mem_of_mem_tail hm)
  lineage := by
    have hlineage := hc.lineage.activate (List.mem_of_getElem? hb)
    rw [← (hc.lineage.births hb).2] at hlineage
    exact hlineage

/-- The cell of the mark that the next activation gets. -/
def Context.freshLink {H : Host} (c : Context H) : Ref .link :=
  (c.bindings.alloc .nil).1

/-- Code in the activation that a yield from `c` began: as long as no pass of the activation was
recorded, its parameters are all that was declared. -/
structure Context.Activated (c : Context (Recorded β (Diary σ))) (block : Block (Numbered β))
    (yielding : Yielding β (Diary σ)) (d : Context (Recorded β (Diary σ))) : Prop where
  shares : d.Shares
  advances : (c.entering block yielding.cls).Advances (fun _ => True) d
  begun : Chain.Grown (· ∈ block.params.names) (⟨none, c.freshLink⟩ :: block.chain) d.chain ∨
    ∃ pass ∈ d.host.passes, pass.scene.chain.activation? = some c.freshLink
  passes : ∀ pass ∈ d.host.passes, pass ∈ c.host.passes ∨ pass.scene.chain.Beyond c.bindings
  yields : ∀ pass ∈ d.host.passes, pass.scene.chain.activation? = some c.freshLink ->
    pass.yielding = yielding

section Activations

variable {block : Block (Numbered β)} {yielding : Yielding β (Diary σ)}

theorem Context.Activated.activation?_eq (h : c.Activated block yielding d) :
    d.chain.activation? = some c.freshLink :=
  h.advances.chain.activation?_eq

theorem Context.Shares.activated (hc : c.Shares) (hd : d.Shares)
    (hp : (c.entering block yielding.cls).Proceeds (· ∈ block.params.names) d) :
    c.Activated block yielding d where
  shares := hd
  advances := (hp.mono fun _ _ => trivial).toAdvances
  begun := Or.inl hp.chain
  passes pass hm := by
    rcases hp.passes pass hm with hold | hnew
    · exact Or.inl hold
    · exact Or.inr (hnew.mono (Store.kept_activate c.plain.store block.chain))
  yields pass hm hact := by
    rcases hp.passes pass hm with hold | ⟨cell, hcell, hnew⟩
    · have hprecedes := hc.lineage.scenes _ (Journal.mem_scenes_of_pass hold)
      exact absurd (hprecedes.kept.has (hprecedes.sound.has hact)) (Arena.not_has_alloc _ _)
    · rw [hact] at hcell
      cases hcell
      exact absurd (Arena.has_alloc c.bindings .nil) hnew

theorem Context.Activated.proceed {e : Context (Recorded β (Diary σ))}
    (h : c.Activated block yielding d) (he : e.Shares) (hp : d.Proceeds (fun _ => True) e)
    {pass : Pass β (Diary σ)} (hm : pass ∈ d.host.passes)
    (hact : pass.scene.chain.activation? = some c.freshLink) : c.Activated block yielding e where
  shares := he
  advances := h.advances.trans hp.toAdvances
  begun := Or.inr ⟨pass, hp.host.passes.subset hm, hact⟩
  passes other hother := by
    have hkept : c.plain.store.Kept d.plain.store :=
      (Store.kept_activate c.plain.store block.chain).trans h.advances.kept
    rcases hp.passes other hother with hold | hnew
    · exact h.passes other hold
    · exact Or.inr (hnew.mono hkept)
  yields other hother hactive := by
    rcases hp.passes other hother with hold | hnew
    · exact h.yields other hold hactive
    · refine absurd hnew (h.shares.lineage.sound.not_beyond ?_)
      exact hactive.trans h.activation?_eq.symm

theorem Context.Activated.resuming (hc : c.Shares) (h : c.Activated block yielding d) :
    (c.resuming d).Shares ∧ sharing.Links c (c.resuming d) := by
  have hentering := Store.kept_activate c.plain.store block.chain
  have hkept : c.plain.store.Kept d.plain.store := hentering.trans h.advances.kept
  have hbeyond : ∀ scene ∈ d.host.scenes,
      scene ∈ c.host.scenes ∨ scene.chain.Beyond c.bindings := by
    intro scene hm
    rcases h.advances.scenes scene hm with hold | hsame | hnew
    · exact Or.inl hold
    · exact Or.inr ⟨_, hsame, Arena.not_has_alloc c.bindings .nil⟩
    · exact Or.inr (hnew.mono hentering)
  have hlineage := hc.lineage.resume h.shares.lineage hkept hbeyond
  refine ⟨⟨⟨hc.based.frames, hc.based.scopes, hc.based.marks, hc.based.blocks⟩, fun hm => ?_,
    hlineage⟩, ⟨rfl, rfl, rfl, rfl, .refl _⟩, ⟨.refl _ _, ⟨hkept.has, hkept.names⟩,
    h.advances.count, h.advances.host, fun scene hm => ?_⟩, h.passes⟩
  · obtain ⟨birth, hbirth, hblock⟩ := hc.blocks hm
    exact ⟨birth, h.advances.host.birth hbirth, hblock⟩
  · exact (hbeyond scene hm).imp_right Or.inr

def Contract.within (c : Context (Recorded β (Diary σ))) (block : Block (Numbered β))
    (yielding : Yielding β (Diary σ)) : Contract (Recorded β (Diary σ)) where
  Holds := c.Activated block yielding
  Links := Context.SameStacks
  Faults _ := True
  refl := .refl
  trans := .trans

/-- After a recorded pass, sharing is all that is asked for. -/
theorem Contract.Allows.within (hd : c.Activated block yielding d) {pass : Pass β (Diary σ)}
    (hm : pass ∈ d.host.passes) (hact : pass.scene.chain.activation? = some c.freshLink)
    {r : EStateM.Result (Exit ε) (Context (Recorded β (Diary σ))) α} (h : sharing.Allows d r) :
    (Contract.within c block yielding).Allows d r := by
  cases r with
  | ok a e => exact ⟨hd.proceed h.1 h.2.2 hm hact, h.2.1⟩
  | error exit e => exact ⟨⟨hd.proceed h.1.1 h.1.2.2 hm hact, h.1.2.1⟩, h.2⟩

end Activations

section Body

variable {birth : Birth β (Diary σ)} {number : Nat} {yielding : Yielding β (Diary σ)}

/-- A pass in the activation of a born block is traced to the birth of the block. -/
theorem Context.Activated.traces (hc : c.Shares) (hb : c.host.births[number]? = some birth)
    (h : c.Activated birth.block yielding d) {pass : Pass β (Diary σ)}
    (hsite : pass.yielding.site = c.plain) (hnumber : pass.number = birth.block.code.number)
    (hscene : pass.scene = d.plain) :
    { d.host with passes := d.host.passes ++ [pass] }.Traces pass := by
  have hchain : pass.scene.chain = d.chain := by
    rw [hscene]
    rfl
  have houtset : pass.scene.chain.outset = ⟨none, c.freshLink⟩ :: birth.block.chain := by
    rw [hchain]
    exact h.advances.chain.outset_eq
  have hborn : d.host.births[pass.number]? = some birth := by
    rw [hnumber, (hc.lineage.births hb).1]
    exact h.advances.host.birth hb
  have hnew : ¬ pass.yielding.site.bindings.Has c.freshLink := by
    rw [hsite]
    exact Arena.not_has_alloc c.bindings .nil
  have hbegins : pass.Begins birth := by
    refine ⟨c.freshLink, hnew, ?_⟩
    rw [houtset, (hc.lineage.births hb).2]
  refine ⟨birth, hborn, hbegins, fun hopens => ?_⟩
  rcases h.begun with hgrown | ⟨other, hm, hact⟩
  · rw [houtset, hchain]
    exact hgrown
  · rcases hopens.of_extends (Journal.extends_pass d.host pass) with hold | hnone
    · -- Then an equal pass was recorded before, and what was said of it then still holds.
      obtain ⟨same, hsame, _, hgrown⟩ := h.shares.lineage.passes pass hold.mem
      rw [hborn] at hsame
      cases hsame
      exact hgrown hold
    · refine absurd ?_ (hnone other hm)
      rw [hact, hchain]
      exact h.activation?_eq.symm

theorem Context.Activated.notePass (hc : c.Shares) (hb : c.host.births[number]? = some birth)
    (h : c.Activated birth.block yielding d) (hsite : yielding.site = c.plain)
    (receiver : Option Value) :
    c.Activated birth.block yielding (d.journaling { d.host with passes := d.host.passes ++
      [⟨yielding, birth.block.code.number, receiver, d.plain⟩] }) := by
  let pass : Pass β (Diary σ) := ⟨yielding, birth.block.code.number, receiver, d.plain⟩
  have hsnoc : ∀ other ∈ d.host.passes ++ [pass], other ∈ d.host.passes ∨ other = pass := by
    intro other hm
    rcases List.mem_append.mp hm with hold | hlast
    · exact Or.inl hold
    · exact Or.inr (List.mem_singleton.mp hlast)
  have hlast : pass ∈ d.host.passes ++ [pass] :=
    List.mem_append_right _ (List.mem_singleton_self pass)
  have hown : ∀ other ∈ d.host.passes ++ [pass],
      other.scene.chain.activation? = some c.freshLink -> other.yielding = yielding := by
    intro other hm hact
    rcases hsnoc other hm with hold | rfl
    · exact h.yields other hold hact
    · rfl
  have hactive : pass.scene.chain.activation? = some c.freshLink := h.activation?_eq
  have htogether : ∀ x ∈ d.host.passes ++ [pass], ∀ y ∈ d.host.passes ++ [pass],
      x.Together y := by
    intro x hx y hy hact
    rcases hsnoc x hx with hxold | rfl
    · rcases hsnoc y hy with hyold | rfl
      · exact h.shares.lineage.yields x hxold y hyold hact
      · exact hown x hx (hact.trans hactive)
    · exact (hown y hy (hact.symm.trans hactive)).symm
  have htraces : ∀ other ∈ d.host.passes ++ [pass], other ∈ d.host.passes ∨
      { d.host with passes := d.host.passes ++ [pass] }.Traces other := by
    intro other hm
    rcases hsnoc other hm with hold | rfl
    · exact Or.inl hold
    · exact Or.inr (h.traces hc hb hsite rfl rfl)
  obtain ⟨hshares, hadvances⟩ := h.shares.noting
    { d.host with passes := d.host.passes ++ [pass] } rfl (Journal.extends_pass d.host pass)
    (.pass d.host pass) Or.inl htraces htogether
  exact
    { shares := hshares
      advances := h.advances.trans hadvances
      begun := Or.inr ⟨pass, hlast, hactive⟩
      passes := fun other hm => by
        rcases hsnoc other hm with hold | rfl
        · exact h.passes other hold
        · exact Or.inr ⟨c.freshLink, hactive, Arena.not_has_alloc c.bindings .nil⟩
      yields := hown }

/-- A pass is recorded before the body of an activated block runs. -/
theorem notePass_within {next : Run Signal (Recorded β (Diary σ)) Value} (hc : c.Shares)
    (hb : c.host.births[number]? = some birth) (h : c.Activated birth.block yielding d)
    (hsite : yielding.site = c.plain) (receiver : Option Value) (hnext : next.Keeps sharing) :
    (Contract.within c birth.block yielding).Allows d ((do
      Journal.notePass yielding birth.block.code.number receiver
      next : Run Signal (Recorded β (Diary σ)) Value) d) := by
  have hnoted := h.notePass hc hb hsite receiver
  have hlast : _ ∈ d.host.passes ++ [⟨yielding, birth.block.code.number, receiver, d.plain⟩] :=
    List.mem_append_right _ (List.mem_singleton_self _)
  have hrest := Contract.Allows.within hnoted hlast h.activation?_eq (hnext _ hnoted.shares)
  exact hrest.of_links ⟨rfl, rfl, rfl, rfl, .refl _⟩

theorem runCode_within {eval : Evaluator (Recorded β (Diary σ))} (he : eval.Keeps sharing)
    (hc : c.Shares) (hb : c.host.births[number]? = some birth) (hsite : yielding.site = c.plain)
    (receiver : Value) (args : List Value) :
    (runCode (eval.watching yielding) birth.block.code receiver args).Keeps
      (.within c birth.block yielding) := by
  cases hcode : birth.block.code with
  | body code =>
      have hnumber : birth.block.code.number = code.number := by rw [hcode]; rfl
      intro d hd
      have hpass := notePass_within hc hb hd hsite (some receiver) (he.body code receiver args)
      rw [hnumber] at hpass
      exact hpass
  | callback code data =>
      have hnumber : birth.block.code.number = code.number := by rw [hcode]; rfl
      refine Run.Keeps.bind (fun d hd => ?_) fun packed d hd => ?_
      · have hbased := hd.shares.based
        exact ⟨⟨⟨⟨hbased.frames, hbased.scopes, hbased.marks, hbased.blocks⟩, hd.shares.blocks,
          hd.shares.lineage⟩, { hd.advances with }, hd.begun, hd.passes, hd.yields⟩,
          ⟨rfl, rfl, rfl, rfl, .refl _⟩⟩
      · have hpass := notePass_within hc hb hd hsite none (he.callback code packed data)
        rw [hnumber] at hpass
        exact hpass

end Body

theorem prepareArgs_proceeding {eval : Evaluator (Recorded β (Diary σ))} (hc : c.Shares)
    (hbind : ∀ pattern receiver value strict,
      (eval.bind pattern receiver value strict).Keeps (.proceeding (· ∈ pattern.names)))
    (yielding : Yielding β (Diary σ)) (block : Block (Numbered β)) (receiver : Value)
    (value : Option Value) (strict : Bool) :
    (Contract.proceeding (· ∈ block.params.names)).Allows c
      (prepareArgs (eval.watching yielding) block receiver value strict c) := by
  have hheap : ∀ heap : Heap, (Contract.proceeding (· ∈ block.params.names)).Holds
      { c with heap := heap } ∧ (Contract.proceeding (· ∈ block.params.names)).Links c
        { c with heap := heap } := by
    intro heap
    exact ⟨⟨⟨hc.based.frames, hc.based.scopes, hc.based.marks, hc.based.blocks⟩, hc.blocks,
      hc.lineage⟩, ⟨rfl, rfl, rfl, rfl, .refl _⟩, { Context.Proceeds.refl _ c with }⟩
  refine Contract.Allows.prepareArgs hheap block receiver value strict
    fun heap pattern value hparams => ?_
  have hnames : block.params.names = pattern.names := by rw [hparams]; rfl
  rw [hnames]
  exact (noteBinding_sharing yielding receiver).bind (fun _ => hbind pattern receiver value strict)
    _ (hheap heap).1

theorem yieldBlock_sharing {eval : Evaluator (Recorded β (Diary σ))} {F : Fault -> Prop}
    (he : eval.Keeps sharing) (hc : c.Shares)
    (hb : ∀ pattern receiver value strict,
      (eval.bind pattern receiver value strict).Keeps (Contract.balanced F))
    (hbind : ∀ pattern receiver value strict,
      (eval.bind pattern receiver value strict).Keeps (.proceeding (· ∈ pattern.names)))
    (value receiver : Option Value) (cls : Option (Ref .module)) (strict : Bool) :
    sharing.Allows c
      (yieldBlock (eval.watching ⟨c.plain, receiver, cls⟩) value receiver cls strict c) := by
  cases ht : c.yieldTarget? with
  | none =>
      rw [yieldBlock_of_none ht]
      exact sharing.allows_raised hc _
  | some block =>
      have hlive : block ∈ c.blocks.live := by
        rw [hc.based.live_eq_of_target ht]
        exact List.mem_cons_self
      obtain ⟨birth, hborn, rfl⟩ := hc.blocks hlive
      have hentered := hc.entering hborn cls
      have hprep := prepareArgs_proceeding hentered hbind ⟨c.plain, receiver, cls⟩ birth.block
        (birth.block.receiverFor receiver cls) value strict
      have hwatched : ∀ pattern self value strict, ((eval.watching ⟨c.plain, receiver, cls⟩).bind
          pattern self value strict).Keeps (Contract.balanced F) :=
        fun _ _ _ _ => (note_balanced _).bind fun _ => hb _ _ _ _
      refine Layer.around_allows (L := .within c birth.block ⟨c.plain, receiver, cls⟩) hc.based
        hwatched (fun _ _ => trivial) (.yield value receiver cls strict) Run.exhausted ?_ ?_ ?_
      · rintro inside ⟨other, args, bound, hother, hp, rfl⟩
        rw [ht] at hother
        cases hother
        rw [hp] at hprep
        obtain ⟨hbased, hblocks, hlineage⟩ := hprep.1
        have hactivated : c.Activated birth.block ⟨c.plain, receiver, cls⟩ bound :=
          hc.activated hprep.1 hprep.2.2
        have hpushed : c.Activated birth.block ⟨c.plain, receiver, cls⟩
            { bound with marks := bound.marks.push birth.block.mark } :=
          { hactivated with
            shares := ⟨⟨hbased.frames, hbased.scopes, hbased.marks, hbased.blocks⟩, hblocks,
              hlineage⟩
            advances := { hactivated.advances with } }
        rw [Layer.codeAt_yield hc.based ht hp]
        exact Layer.rounds_keeps (runCode_within he hc hborn rfl _ args) _ _ _ hpushed
      · intro inside d _ hd hlinks
        exact ⟨hlinks, hd.resuming hc⟩
      · rintro exit d (⟨hnone, _⟩ | ⟨other, bound, hother, hp, rfl⟩)
        · rw [ht] at hnone
          cases hnone
        · rw [ht] at hother
          cases hother
          rw [hp] at hprep
          have hactivated : c.Activated birth.block ⟨c.plain, receiver, cls⟩ bound :=
            hc.activated hprep.1.1 hprep.1.2.2
          exact ⟨hactivated.resuming hc, fun _ _ => trivial⟩

end Yielding

end ExecutionContext
