import ExecutionContext.Proofs.Diary
import ExecutionContext.Proofs.Recording
import ExecutionContext.Proofs.Scenes

/-! # The lineage of chains in a journal

The scenes of a journal belong to activations, each of which began on a chain that some
block had captured. In the scenes of one activation the chain only grows, and at its
first pass it holds no more than the captured chain and the parameters. That is the
invariant of this module, with the store as it is now; it survives writes, the records
of new scenes, and the beginning and the end of an activation.
-/

namespace ExecutionContext

variable {β σ : Type}

def Params.names : Params -> List String
  | .pattern bound => bound.names
  | _ => []

/-- The first pass of its activation in the journal. -/
def Journal.Opens (journal : Journal β σ) (pass : Pass β σ) : Prop :=
  ∃ before after, journal.passes = before ++ pass :: after ∧
    ∀ earlier ∈ before, earlier.scene.chain.activation? ≠ pass.scene.chain.activation?

/-- The activation of the pass has a mark that was new when its yield was made, in front of the
chain that the block captured. -/
def Pass.Begins (pass : Pass β σ) (birth : Birth β σ) : Prop :=
  ∃ cell, ¬ pass.yielding.site.bindings.Has cell ∧
    pass.scene.chain.outset = ⟨none, cell⟩ :: birth.scene.chain

/-- The pass runs a born block, and finds no more than its parameters if it is the first one. -/
def Journal.Traces (journal : Journal β σ) (pass : Pass β σ) : Prop :=
  ∃ birth, journal.births[pass.number]? = some birth ∧ pass.Begins birth ∧
    (journal.Opens pass ->
      Chain.Grown (· ∈ birth.block.params.names) pass.scene.chain.outset pass.scene.chain)

def Pass.Together (x y : Pass β σ) : Prop :=
  x.scene.chain.activation? = y.scene.chain.activation? -> x.yielding = y.yielding

/-- The chain belongs to an activation whose mark is not among the cells. -/
def Chain.Beyond (chain : Chain) (bindings : Bindings) : Prop :=
  ∃ cell, chain.activation? = some cell ∧ ¬ bindings.Has cell

/-- A scene of the past: its store was sound and was kept, and where the present activation is its
own, the chain has grown from its chain. -/
structure Context.Precedes (scene : Context (Plain β (Diary σ))) (s : Store) (count : Nat) :
    Prop where
  sound : scene.store.Sound
  kept : scene.store.Kept s
  count : scene.blockCount ≤ count
  grown : scene.chain.activation? = s.chain.activation? ->
    Chain.Grown (fun _ => True) scene.chain s.chain

/-- In scenes of one activation the chains began alike, and grew as blocks were created. -/
def Context.Ordered (x y : Context (Plain β (Diary σ))) : Prop :=
  x.chain.activation? = y.chain.activation? ->
    x.chain.outset = y.chain.outset ∧
      (x.blockCount < y.blockCount -> Chain.Grown (fun _ => True) x.chain y.chain)

/-- The journal tells where the present store comes from, when so many blocks were created. -/
structure Journal.Lineage (journal : Journal β (Diary σ)) (s : Store) (count : Nat) : Prop where
  sound : s.Sound
  births : ∀ {number : Nat} {birth : Birth β (Diary σ)}, journal.births[number]? = some birth ->
    birth.block.code.number = number ∧ birth.block.chain = birth.scene.chain
  scenes : ∀ scene ∈ journal.scenes, scene.Precedes s count
  ordered : ∀ x ∈ journal.scenes, ∀ y ∈ journal.scenes, x.Ordered y
  passes : ∀ pass ∈ journal.passes, journal.Traces pass
  yields : ∀ x ∈ journal.passes, ∀ y ∈ journal.passes, x.Together y

/-! ## Passes -/

/-- A place in a list is in a part that begins the list, or behind all of that part. -/
theorem split_or_behind {α : Type} {first rest before after : List α} {a : α}
    (h : first ++ rest = before ++ a :: after) :
    (∃ more, first = before ++ a :: more) ∨ ∀ b ∈ first, b ∈ before := by
  rcases List.append_eq_append_iff.mp h with ⟨more, hbefore, _⟩ | ⟨more, hfirst, hafter⟩
  · refine Or.inr fun b hb => ?_
    rw [hbefore]
    exact List.mem_append_left _ hb
  · cases more with
    | nil =>
        rw [List.append_nil] at hfirst
        exact Or.inr fun b hb => hfirst ▸ hb
    | cons head more =>
        obtain ⟨rfl, _⟩ := List.cons.inj hafter
        exact Or.inl ⟨more, hfirst⟩

theorem Journal.Opens.mem {journal : Journal β σ} {pass : Pass β σ} (h : journal.Opens pass) :
    pass ∈ journal.passes := by
  obtain ⟨before, after, hpasses, _⟩ := h
  rw [hpasses]
  exact List.mem_append_right before List.mem_cons_self

/-- A pass that comes first in its activation did so in an earlier journal, or none of its
activation was recorded there. -/
theorem Journal.Opens.of_extends {old new : Journal β σ} {pass : Pass β σ} (h : new.Opens pass)
    (hx : old.Extends new) : old.Opens pass ∨
      ∀ earlier ∈ old.passes, earlier.scene.chain.activation? ≠ pass.scene.chain.activation? := by
  obtain ⟨more, hmore⟩ := hx.passes
  obtain ⟨before, after, hpasses, hfirst⟩ := h
  rcases split_or_behind (hmore.trans hpasses) with ⟨rest, hold⟩ | hbehind
  · exact Or.inl ⟨before, rest, hold, hfirst⟩
  · exact Or.inr fun earlier hearlier => hfirst earlier (hbehind earlier hearlier)

theorem Journal.Traces.of_extends {old new : Journal β σ} {pass : Pass β σ} (h : old.Traces pass)
    (hx : old.Extends new) (hm : pass ∈ old.passes) : new.Traces pass := by
  obtain ⟨birth, hbirth, hbegins, hgrown⟩ := h
  refine ⟨birth, hx.birth hbirth, hbegins, fun hopens => ?_⟩
  rcases hopens.of_extends hx with hold | hnone
  · exact hgrown hold
  · exact absurd rfl (hnone pass hm)

/-! ## Scenes -/

theorem Context.precedes_now {scene : Context (Plain β (Diary σ))} (h : scene.store.Sound) :
    scene.Precedes scene.store scene.blockCount :=
  ⟨h, .refl _, Nat.le_refl _, fun _ => .refl _ _⟩

theorem Chain.Beyond.mono {chain : Chain} {s t : Store} (h : chain.Beyond t.bindings)
    (hk : s.Kept t) : chain.Beyond s.bindings := by
  obtain ⟨cell, hcell, hnew⟩ := h
  exact ⟨cell, hcell, fun hhas => hnew (hk.has hhas)⟩

/-- What is beyond a sound store is not its activation. -/
theorem Store.Sound.not_beyond {s : Store} {chain : Chain} (h : s.Sound)
    (he : chain.activation? = s.chain.activation?) : ¬ chain.Beyond s.bindings := by
  rintro ⟨cell, hcell, hnew⟩
  exact hnew (h.has (he ▸ hcell))

namespace Context.Precedes

variable {scene : Context (Plain β (Diary σ))} {s t : Store} {count more : Nat}

/-- A scene of the past remains one while the present activation goes on. -/
theorem advance (h : scene.Precedes s count) (hk : s.Kept t)
    (hg : Chain.Grown (fun _ => True) s.chain t.chain) (hn : count ≤ more) :
    scene.Precedes t more where
  sound := h.sound
  kept := h.kept.trans hk
  count := Nat.le_trans h.count hn
  grown he := (h.grown (he.trans hg.activation?_eq)).trans hg

/-- A scene of the past remains one when an activation begins. -/
theorem activate (h : scene.Precedes s count) (chain : Chain) :
    scene.Precedes (s.activate chain) count where
  sound := h.sound
  kept := h.kept.trans (s.kept_activate chain)
  count := h.count
  grown he := by
    have hhas := h.kept.has (h.sound.has (he.trans (Chain.activation?_mark _ _)))
    exact absurd hhas (Arena.not_has_alloc s.bindings .nil)

/-- A scene of the past remains one when the present chain is put back, if it was one when that
chain was set aside, or belongs to an activation that began since. -/
theorem resume (h : scene.Precedes t more) (hs : s.Sound)
    (hold : scene.Precedes s count ∨ scene.chain.Beyond s.bindings) :
    scene.Precedes { t with chain := s.chain } more where
  sound := h.sound
  kept := ⟨h.kept.has, h.kept.names⟩
  count := h.count
  grown he := by
    rcases hold with hold | hnew
    · exact hold.grown he
    · exact absurd hnew (hs.not_beyond he)

end Context.Precedes

/-! ## The invariant goes on -/

namespace Journal.Lineage

variable {journal new : Journal β (Diary σ)} {s t : Store} {count more : Nat}

/-- The present activation goes on. -/
theorem advance (h : journal.Lineage s count) (ht : t.Sound) (hk : s.Kept t)
    (hg : Chain.Grown (fun _ => True) s.chain t.chain) (hn : count ≤ more) (own : Diary σ) :
    { journal with own := own }.Lineage t more where
  sound := ht
  births := h.births
  scenes scene hm := (h.scenes scene hm).advance hk hg hn
  ordered := h.ordered
  passes := h.passes
  yields := h.yields

theorem extend {scene : Context (Plain β (Diary σ))}
    (h : journal.Lineage scene.store scene.blockCount) (hx : journal.Extends new)
    (hshows : journal.Shows new scene)
    (hbirths : ∀ {number : Nat} {birth : Birth β (Diary σ)}, new.births[number]? = some birth ->
      journal.births[number]? = some birth ∨
        birth.block.code.number = number ∧ birth.block.chain = birth.scene.chain)
    (hpasses : ∀ pass ∈ new.passes, pass ∈ journal.passes ∨ new.Traces pass)
    (hyields : ∀ x ∈ new.passes, ∀ y ∈ new.passes, x.Together y) :
    new.Lineage scene.store scene.blockCount where
  sound := h.sound
  births hb := (hbirths hb).elim h.births id
  scenes other hm := by
    rcases hshows.mem_scenes hm with hold | rfl
    · exact h.scenes other hold
    · exact Context.precedes_now h.sound
  ordered x hx y hy he := by
    rcases hshows.mem_scenes hx with hxold | rfl
    · rcases hshows.mem_scenes hy with hyold | rfl
      · exact h.ordered x hxold y hyold he
      · have hg := (h.scenes x hxold).grown he
        exact ⟨hg.outset_eq.symm, fun _ => hg⟩
    · rcases hshows.mem_scenes hy with hyold | rfl
      · have hprec := h.scenes y hyold
        have hg : Chain.Grown (fun _ => True) y.chain x.chain := hprec.grown he.symm
        exact ⟨hg.outset_eq, fun hlt => absurd hprec.count (Nat.not_le.mpr hlt)⟩
      · exact ⟨rfl, fun _ => .refl _ _⟩
  passes pass hm := by
    rcases hpasses pass hm with hold | hnew
    · exact (h.passes pass hold).of_extends hx hold
    · exact hnew
  yields := hyields

/-- An activation begins on the chain that a born block captured. -/
theorem activate (h : journal.Lineage s count) {birth : Birth β (Diary σ)}
    (hb : birth ∈ journal.births) : journal.Lineage (s.activate birth.scene.chain) count where
  sound := by
    have hprecedes := h.scenes _ (Journal.mem_scenes_of_birth hb)
    exact hprecedes.sound.activate h.sound hprecedes.kept
  births := h.births
  scenes scene hm := (h.scenes scene hm).activate birth.scene.chain
  ordered := h.ordered
  passes := h.passes
  yields := h.yields

/-- An activation ends, and the chain that was set aside for it is put back. -/
theorem resume (h : journal.Lineage s count) (hnew : new.Lineage t more) (hk : s.Kept t)
    (hscenes : ∀ scene ∈ new.scenes, scene ∈ journal.scenes ∨ scene.chain.Beyond s.bindings) :
    new.Lineage { t with chain := s.chain } more where
  sound := h.sound.withChain hnew.sound hk
  births := hnew.births
  scenes scene hm :=
    (hnew.scenes scene hm).resume h.sound ((hscenes scene hm).imp_left (h.scenes scene))
  ordered := hnew.ordered
  passes := hnew.passes
  yields := hnew.yields

end Journal.Lineage

end ExecutionContext
