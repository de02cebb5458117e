import ExecutionContext.Proofs.Binding
import ExecutionContext.Proofs.Opening
import ExecutionContext.Proofs.Operations

/-! # Runs that only add to what they find

A calm run leaves every stack, the open class and the namespace as it found them, puts
links in front of the chain at most, and keeps the marks and the namespaces of all
frames. Binding parameters is calm, and so is every operation on variables; a layer is
calm around calm code, although its opening is not.
-/

namespace ExecutionContext

variable {H : Host} {ε α : Type}

/-! ## Frames that are kept -/

/-- The frames of the one table are in the other, with their marks, and with their namespaces if
they have any. -/
def FramesKept (old new : Arena .frame Frame) : Prop :=
  ∀ frame, old.Has frame -> new.Has frame ∧ (new.read frame).mark = (old.read frame).mark ∧
    ∀ ns, (old.read frame).ns = some ns -> (new.read frame).ns = some ns

namespace FramesKept

variable {old new newer : Arena .frame Frame}

theorem refl (cells : Arena .frame Frame) : FramesKept cells cells :=
  fun _ h => ⟨h, rfl, fun _ h => h⟩

theorem trans (h₁ : FramesKept old new) (h₂ : FramesKept new newer) : FramesKept old newer := by
  intro frame h
  obtain ⟨hnew, hm₁, hn₁⟩ := h₁ frame h
  obtain ⟨hnewer, hm₂, hn₂⟩ := h₂ frame hnew
  exact ⟨hnewer, hm₂.trans hm₁, fun ns hns => hn₂ ns (hn₁ ns hns)⟩

theorem alloc (cells : Arena .frame Frame) (value : Frame) :
    FramesKept cells (cells.alloc value).2 := by
  intro frame h
  rw [Arena.read_alloc_of_has h]
  exact ⟨h.alloc value, rfl, fun _ h => h⟩

theorem modify_ns {cells : Arena .frame Frame} {frame : Ref .frame}
    (h : (cells.read frame).ns = none) (ns : Option Namespace) :
    FramesKept cells (cells.modify frame fun f => { f with ns := ns }) := by
  intro other ho
  refine ⟨Arena.has_write.mpr ho, ?_⟩
  unfold Arena.modify
  by_cases he : frame = other
  · subst he
    rw [Arena.read_write_self ho]
    exact ⟨rfl, fun ns hns => by rw [h] at hns; cases hns⟩
  · rw [Arena.read_write_of_ne cells he]
    exact ⟨rfl, fun _ h => h⟩

end FramesKept

/-! ## Calm -/

namespace Context

/-- Nothing is taken away: frames are kept, and cells of bindings are only added. -/
structure Grown (c d : Context H) : Prop where
  frameCells : FramesKept c.frameCells d.frameCells
  bindings : c.bindings.size ≤ d.bindings.size

structure Calm (c d : Context H) : Prop extends c.Grown d where
  frames : d.frames = c.frames
  scopes : d.scopes = c.scopes
  blocks : d.blocks = c.blocks
  marks : d.marks = c.marks
  classes : d.classes = c.classes
  ns : ∀ ns, c.ns = some ns -> d.ns = some ns
  chain : c.chain <:+ d.chain

theorem Grown.trans {c d e : Context H} (h₁ : c.Grown d) (h₂ : d.Grown e) : c.Grown e :=
  ⟨h₁.frameCells.trans h₂.frameCells, Nat.le_trans h₁.bindings h₂.bindings⟩

theorem Calm.refl (c : Context H) : c.Calm c where
  frameCells := .refl _
  bindings := Nat.le_refl _
  frames := rfl
  scopes := rfl
  blocks := rfl
  marks := rfl
  classes := rfl
  ns _ h := h
  chain := List.suffix_refl _

theorem Calm.trans {c d e : Context H} (h₁ : c.Calm d) (h₂ : d.Calm e) : c.Calm e where
  toGrown := h₁.toGrown.trans h₂.toGrown
  frames := h₂.frames.trans h₁.frames
  scopes := h₂.scopes.trans h₁.scopes
  blocks := h₂.blocks.trans h₁.blocks
  marks := h₂.marks.trans h₁.marks
  classes := h₂.classes.trans h₁.classes
  ns ns h := h₂.ns ns (h₁.ns ns h)
  chain := h₁.chain.trans h₂.chain

theorem Calm.sameStacks {c d : Context H} (h : c.Calm d) : c.SameStacks d :=
  ⟨h.frames, h.blocks, h.marks, by rw [h.classes], Or.inl h.scopes⟩

end Context

def Contract.calm : Contract H where
  Holds := Context.Based
  Links := Context.Calm
  Faults _ := True
  refl := .refl
  trans := .trans

theorem Contract.Allows.balanced {c : Context H} {r : EStateM.Result (Exit ε) (Context H) α}
    (h : Contract.calm.Allows c r) : (Contract.balanced fun _ => True).Allows c r := by
  cases r with
  | ok a d => exact ⟨h.1, h.2.sameStacks⟩
  | error exit d => exact ⟨⟨h.1.1, h.1.2.sameStacks⟩, fun _ _ => trivial⟩

theorem Run.Keeps.balanced {run : Run ε H α} (h : run.Keeps .calm) :
    run.Keeps (.balanced fun _ => True) :=
  fun c hc => (h c hc).balanced

/-! ## Calm operations -/

theorem Run.keeps_calm {run : Run ε H α} (h : ∀ c : Context H, c.Based -> c.Calm (run.after c)) :
    run.Keeps .calm := by
  intro c hc
  have hcalm := h c hc
  cases hr : run c with
  | ok a d =>
      rw [Run.after_of_ok hr] at hcalm
      exact ⟨hcalm.sameStacks.based hc, hcalm⟩
  | error exit d =>
      rw [Run.after_of_error hr] at hcalm
      exact ⟨⟨hcalm.sameStacks.based hc, hcalm⟩, fun _ _ => trivial⟩

theorem newArray_calm (items : List Value) : (newArray items : Run ε H Value).Keeps .calm :=
  Run.keeps_calm fun c _ => { Context.Calm.refl c with }

theorem packArgs_calm (args : List Value) : (packArgs args : Run ε H Value).Keeps .calm :=
  Run.keeps_calm fun c _ => { Context.Calm.refl c with }

theorem Chain.suffix_set (chain : Chain) (bindings : Bindings) (name : String) (value : Value) :
    chain <:+ (chain.set bindings name value).1 := by
  unfold Chain.set
  cases chain.find? name with
  | some cell => exact List.suffix_refl _
  | none => exact List.suffix_cons _ _

theorem Chain.size_le_set (chain : Chain) (bindings : Bindings) (name : String) (value : Value) :
    bindings.size ≤ (chain.set bindings name value).2.size := by
  unfold Chain.set
  cases chain.find? name with
  | some cell => exact Nat.le_of_eq (Arena.size_write _ _ _).symm
  | none =>
      simp only [Chain.declare, Chain.extend, Arena.size_alloc]
      exact Nat.le_succ _

/-- The effects that take nothing away. -/
def Effect.calm : List Effect :=
  [.naming, .levels, .values, .refusal]

theorem Context.Change.calm {effects : List Effect} {c d : Context H} (h : c.Change effects d)
    (hcalm : ∀ effect ∈ effects, effect ∈ Effect.calm) : c.Calm d := by
  cases h with
  | naming ns _ hnone =>
      exact { Context.Calm.refl c with
        frameCells := .modify_ns hnone _
        ns := fun ns h => by simp [h] }
  | setDynamic name value =>
      exact { Context.Calm.refl c with
        bindings := c.chain.size_le_set c.bindings name value
        chain := c.chain.suffix_set c.bindings name value }
  | start _ hmem | pushFrame _ hmem _ | popFrame hmem _ | popBlock hmem _ | scopes hmem _
  | marks hmem _ | classes _ hmem | pushBlock _ hmem | ns _ hmem | chain _ hmem | frames _ hmem
  | bindings _ hmem => exact absurd (hcalm _ hmem) (by decide)
  | _ => exact { Context.Calm.refl c with }

theorem Operation.calm {effects : List Effect} {run : Run ε H α} (h : Operation effects run)
    (hcalm : ∀ effect ∈ effects, effect ∈ Effect.calm) : run.Keeps .calm :=
  h.within.keepsAll (fun _ => trivial) fun hc hchange =>
    have hd := hchange.calm hcalm
    ⟨hd.sameStacks.based hc, hd⟩

theorem bindDynamic_calm (pattern : Pattern) (value : Value) (strict : Bool) :
    (bindDynamic pattern value strict : Run Failure H Unit).Keeps .calm := by
  rw [← bindDynamicBy_setDynamic]
  exact bindDynamicBy_keeps (fun name _ value => (Operation.setDynamic name value).calm nofun)
    newArray_calm value strict

/-! ## Layers around calm code -/

theorem prepareArgs_calm {eval : Evaluator H} {c : Context H} (hc : c.Based)
    (hb : ∀ pattern receiver value strict, (eval.bind pattern receiver value strict).Keeps .calm)
    (block : Block H.Body) (receiver : Value) (value : Option Value) (strict : Bool) :
    Contract.calm.Allows c (prepareArgs eval block receiver value strict c) := by
  refine Contract.Allows.prepareArgs (fun heap => ?_) block receiver value strict
    fun heap pattern value _ => ?_
  · exact ⟨⟨hc.frames, hc.scopes, hc.marks, hc.blocks⟩, { Context.Calm.refl c with }⟩
  · exact hb _ _ _ _ _ ⟨hc.frames, hc.scopes, hc.marks, hc.blocks⟩

namespace Context

variable (c : Context H)

theorem grown_entering (block : Block H.Body) (cls : Option (Ref .module)) :
    c.Grown (c.entering block cls) where
  frameCells := .refl _
  bindings := by simp [entering, Chain.activate, Chain.extend]

theorem grown_invoking (receiver : Value) (method : String) (mark : Attachment) :
    c.Grown (c.invoking receiver method mark) :=
  ⟨.alloc _ _, Nat.le_refl _⟩

theorem grown_openingModule (module : Ref .module) (mark : Attachment) :
    c.Grown (c.openingModule module mark) :=
  ⟨.alloc _ _, Nat.le_refl _⟩

end Context

namespace Layer

variable {eval : Evaluator H} {c inside d : Context H} {l : Layer H}

theorem Enters.grown (hc : c.Based)
    (hb : ∀ pattern receiver value strict, (eval.bind pattern receiver value strict).Keeps .calm)
    (he : l.Enters eval c inside) : c.Grown inside := by
  cases l with
  | yield value receiver cls strict =>
      obtain ⟨block, args, bound, ht, hp, rfl⟩ := he
      have hbound := prepareArgs_calm (hc.entering block cls) hb block
        (block.receiverFor receiver cls) value strict
      rw [hp] at hbound
      have hg := (c.grown_entering block cls).trans hbound.2.toGrown
      exact ⟨hg.frameCells, hg.bindings⟩
  | iterate callback data => subst he; exact ⟨.refl _, Nat.le_refl _⟩
  | withBlock block => subst he; exact ⟨.refl _, Nat.le_refl _⟩
  | invoke receiver method => obtain ⟨mark, _, rfl⟩ := he; exact c.grown_invoking ..
  | openModule module => obtain ⟨mark, _, rfl⟩ := he; exact c.grown_openingModule ..
  | catchTag tag => subst he; exact ⟨.refl _, Nat.le_refl _⟩

/-- What a layer gives back is calm when its code was. -/
theorem Enters.calm_giveBack (he : l.Enters eval c inside) (hg : c.Grown inside)
    (hd : inside.Calm d) : c.Calm (l.giveBack c d) := by
  have hgrown := hg.trans hd.toGrown
  cases l with
  | yield value receiver cls strict =>
      exact { Context.Calm.refl c with
        frameCells := hgrown.frameCells
        bindings := hgrown.bindings }
  | iterate callback data =>
      subst he
      exact { hd with blocks := rfl, marks := rfl }
  | withBlock block =>
      subst he
      exact { hd with blocks := rfl, marks := rfl }
  | invoke receiver method =>
      obtain ⟨mark, _, rfl⟩ := he
      exact { hd with
        frameCells := hgrown.frameCells
        bindings := hgrown.bindings
        frames := rfl
        marks := rfl }
  | openModule module =>
      obtain ⟨mark, _, rfl⟩ := he
      exact { hd with
        frameCells := hgrown.frameCells
        bindings := hgrown.bindings
        frames := rfl
        scopes := rfl
        classes := rfl
        ns := fun _ h => h }
  | catchTag tag => subst he; exact hd

theorem Refuses.calm {exit : Exit Signal} (hc : c.Based)
    (hb : ∀ pattern receiver value strict, (eval.bind pattern receiver value strict).Keeps .calm)
    (h : l.Refuses eval c exit d) : c.Calm d := by
  rcases h.cases with ⟨rfl, _⟩ | ⟨block, receiver, value, cls, strict, bound, hp, rfl⟩
  · exact .refl _
  · have hbound := prepareArgs_calm (hc.entering block cls) hb block receiver value strict
    rw [hp] at hbound
    have hg := (c.grown_entering block cls).trans hbound.1.2.toGrown
    exact { Context.Calm.refl c with
      frameCells := hg.frameCells
      bindings := hg.bindings }

end Layer

end ExecutionContext
