import ExecutionContext.Proofs.Balance
import ExecutionContext.Proofs.Binding
import ExecutionContext.Proofs.Chains

/-! # Diaries of the writes to dynamic variables

An evaluator can keep a diary: whenever it writes a dynamic variable, by an assignment
or in binding parameters, it notes down the cell that the name means from then on, and
the value. The diary accounts for the cells: a cell that was ever written holds what
was written last, and all writes to it were made under one name.
-/

namespace ExecutionContext

variable {β σ ε α : Type}

/-! ## Writes -/

/-- A write to a cell, and the name under which it was made. -/
structure Write where
  cell : Ref .link
  name : String
  value : Value
deriving DecidableEq

namespace Write

variable {old new newer writes : List Write} {cell other : Ref .link} {name : String}
  {value : Value}

def latest? (writes : List Write) (cell : Ref .link) : Option Write :=
  writes.find? (fun write => decide (write.cell = cell))

def nameOf? (writes : List Write) (cell : Ref .link) : Option String :=
  (latest? writes cell).map Write.name

@[simp] theorem latest?_self (cell : Ref .link) (name : String) (value : Value)
    (writes : List Write) : latest? (⟨cell, name, value⟩ :: writes) cell =
      some ⟨cell, name, value⟩ := by
  simp [latest?]

theorem latest?_of_ne (h : other ≠ cell) (name : String) (value : Value) (writes : List Write) :
    latest? (⟨other, name, value⟩ :: writes) cell = latest? writes cell := by
  simp [latest?, h]

/-- Every cell keeps the name under which it is written. -/
def NamesKept (old new : List Write) : Prop :=
  ∀ cell name, nameOf? old cell = some name -> nameOf? new cell = some name

theorem NamesKept.refl (writes : List Write) : NamesKept writes writes :=
  fun _ _ h => h

theorem NamesKept.trans (h₁ : NamesKept old new) (h₂ : NamesKept new newer) :
    NamesKept old newer :=
  fun cell name h => h₂ cell name (h₁ cell name h)

/-- One more write under the name of its cell, or to a cell without a name. -/
theorem NamesKept.cons (h : ∀ known, nameOf? writes cell = some known -> known = name)
    (value : Value) : NamesKept writes (⟨cell, name, value⟩ :: writes) := by
  intro other known hknown
  by_cases he : cell = other
  · subst he
    rw [h known hknown]
    simp [nameOf?]
  · simp only [nameOf?, latest?_of_ne he]
    exact hknown

def Accounts (writes : List Write) (bindings : Bindings) : Prop :=
  ∀ cell write, latest? writes cell = some write ->
    bindings.Has cell ∧ bindings.read cell = write.value

namespace Accounts

variable {bindings : Bindings}

theorem alloc (h : Accounts writes bindings) (value : Value) :
    Accounts writes (bindings.alloc value).2 := by
  intro cell write hw
  obtain ⟨hhas, hread⟩ := h _ _ hw
  rw [Arena.read_alloc_of_has hhas]
  exact ⟨hhas.alloc value, hread⟩

theorem write (h : Accounts writes bindings) (hcell : bindings.Has cell) (name : String)
    (value : Value) : Accounts (⟨cell, name, value⟩ :: writes) (bindings.write cell value) := by
  intro other write hw
  by_cases he : cell = other
  · subst he
    rw [latest?_self] at hw
    cases hw
    exact ⟨Arena.has_write.mpr hcell, Arena.read_write_self hcell value⟩
  · rw [latest?_of_ne he] at hw
    obtain ⟨hhas, hread⟩ := h _ _ hw
    rw [Arena.read_write_of_ne bindings he]
    exact ⟨Arena.has_write.mpr hhas, hread⟩

theorem declare (h : Accounts writes bindings) (name : String) (value : Value) :
    Accounts (⟨(bindings.alloc value).1, name, value⟩ :: writes) (bindings.alloc value).2 := by
  intro other write hw
  by_cases he : (bindings.alloc value).1 = other
  · subst he
    rw [latest?_self] at hw
    cases hw
    exact ⟨Arena.has_alloc bindings value, Arena.read_alloc_self bindings value⟩
  · rw [latest?_of_ne he] at hw
    exact h.alloc value _ _ hw

theorem nameOf?_eq_none (h : Accounts writes bindings) (hcell : ¬ bindings.Has cell) :
    nameOf? writes cell = none := by
  cases hw : latest? writes cell with
  | none => simp [nameOf?, hw]
  | some write => exact absurd (h _ _ hw).1 hcell

end Accounts

end Write

/-! ## Stores -/

/-- The dynamic variables of a context: its chain, the cells of all chains, and the writes. -/
structure Store where
  chain : Chain
  bindings : Bindings
  writes : List Write

namespace Store

variable {s t u : Store} {name : String} {cell : Ref .link}

/-- No name occurs twice in the chain, each was written to its cell, and the cells hold what was
written last. -/
structure Sound (s : Store) : Prop where
  accounts : Write.Accounts s.writes s.bindings
  nodup : s.chain.declared.Nodup
  written : ∀ {name cell}, ⟨some name, cell⟩ ∈ s.chain -> Write.nameOf? s.writes cell = some name
  has : ∀ {cell}, s.chain.activation? = some cell -> s.bindings.Has cell

structure Kept (s t : Store) : Prop where
  has : ∀ {cell}, s.bindings.Has cell -> t.bindings.Has cell
  names : Write.NamesKept s.writes t.writes

theorem Kept.refl (s : Store) : s.Kept s :=
  ⟨id, .refl _⟩

theorem Kept.trans (h₁ : s.Kept t) (h₂ : t.Kept u) : s.Kept u :=
  ⟨fun h => h₂.has (h₁.has h), h₁.names.trans h₂.names⟩

/-- A visible name reads as the value of the latest write to its cell, which was made under that
name. -/
theorem Sound.exists_latest (h : s.Sound) (hfind : s.chain.find? name = some cell) :
    ∃ write, Write.latest? s.writes cell = some write ∧ write.name = name ∧
      s.chain.get? s.bindings name = some write.value := by
  have hnamed := h.written (Chain.mem_of_find? hfind)
  obtain ⟨write, hwrite, hname⟩ := Option.map_eq_some_iff.mp hnamed
  refine ⟨write, hwrite, hname, ?_⟩
  rw [Chain.get?, hfind, Option.map_some, (h.accounts _ _ hwrite).2]

/-- A chain of a sound store stays sound in place of another one, as the store goes on. -/
theorem Sound.withChain (h : s.Sound) (ht : t.Sound) (hk : s.Kept t) :
    ({ t with chain := s.chain } : Store).Sound where
  accounts := ht.accounts
  nodup := h.nodup
  written hmem := hk.names _ _ (h.written hmem)
  has hact := hk.has (h.has hact)

def set (s : Store) (name : String) (value : Value) : Store :=
  let changed := s.chain.set s.bindings name value
  { chain := changed.1
    bindings := changed.2
    writes := ⟨(changed.1.find? name).getD default, name, value⟩ :: s.writes }

theorem set_of_some (h : s.chain.find? name = some cell) (value : Value) : s.set name value =
    ⟨s.chain, s.bindings.write cell value, ⟨cell, name, value⟩ :: s.writes⟩ := by
  simp [set, Chain.set, h]

theorem set_of_none (h : s.chain.find? name = none) (value : Value) : s.set name value =
    ⟨⟨some name, (s.bindings.alloc value).1⟩ :: s.chain, (s.bindings.alloc value).2,
      ⟨(s.bindings.alloc value).1, name, value⟩ :: s.writes⟩ := by
  have hnew : Chain.find? (⟨some name, (s.bindings.alloc value).1⟩ :: s.chain) name =
      some (s.bindings.alloc value).1 := by
    simp [Chain.find?]
  simp only [set, Chain.set, h, Chain.declare, Chain.extend, hnew, Option.getD_some]

theorem grown_set (s : Store) (name : String) (value : Value) :
    Chain.Grown (· = name) s.chain (s.set name value).chain := by
  cases hfind : s.chain.find? name with
  | some cell =>
      rw [set_of_some hfind]
      exact .refl _ _
  | none =>
      rw [set_of_none hfind]
      refine Chain.Grown.cons ?_ _ _
      rfl

theorem Sound.kept_set (h : s.Sound) (name : String) (value : Value) : s.Kept (s.set name value) := by
  cases hfind : s.chain.find? name with
  | some cell =>
      rw [set_of_some hfind]
      refine ⟨fun hhas => Arena.has_write.mpr hhas, .cons (fun known hknown => ?_) value⟩
      rw [h.written (Chain.mem_of_find? hfind)] at hknown
      exact (Option.some.inj hknown).symm
  | none =>
      rw [set_of_none hfind]
      refine ⟨fun hhas => hhas.alloc value, .cons (fun known hknown => ?_) value⟩
      rw [h.accounts.nameOf?_eq_none (Arena.not_has_alloc _ _)] at hknown
      cases hknown

theorem Sound.set (h : s.Sound) (name : String) (value : Value) : (s.set name value).Sound := by
  have hkept := h.kept_set name value
  have hact := (s.grown_set name value).activation?_eq
  cases hfind : s.chain.find? name with
  | some cell =>
      have hwritten := h.written (Chain.mem_of_find? hfind)
      obtain ⟨write, hwrite, _⟩ := Option.map_eq_some_iff.mp hwritten
      rw [set_of_some hfind] at hkept ⊢
      exact
        { accounts := h.accounts.write (h.accounts _ _ hwrite).1 name value
          nodup := h.nodup
          written := fun hmem => hkept.names _ _ (h.written hmem)
          has := fun hcell => hkept.has (h.has hcell) }
  | none =>
      rw [set_of_none hfind] at hkept hact ⊢
      refine
        { accounts := h.accounts.declare name value
          nodup := List.nodup_cons.mpr ⟨Chain.find?_eq_none_iff.mp hfind, h.nodup⟩
          written := fun {other cell} hmem => ?_
          has := fun hcell => hkept.has (h.has (hact ▸ hcell)) }
      rcases List.mem_cons.mp hmem with heq | hold
      · cases heq
        simp [Write.nameOf?]
      · exact hkept.names _ _ (h.written hold)

def activate (s : Store) (chain : Chain) : Store :=
  { s with
    chain := (chain.activate s.bindings).1
    bindings := (chain.activate s.bindings).2 }

theorem kept_activate (s : Store) (chain : Chain) : s.Kept (s.activate chain) :=
  ⟨fun hhas => hhas.alloc .nil, .refl _⟩

theorem Sound.activate (h : s.Sound) (ht : t.Sound) (hk : s.Kept t) :
    (t.activate s.chain).Sound where
  accounts := ht.accounts.alloc .nil
  nodup := h.nodup
  written hmem := by
    rcases List.mem_cons.mp hmem with heq | hold
    · cases heq
    · exact hk.names _ _ (h.written hold)
  has hcell := by
    cases hcell
    exact Arena.has_alloc _ _

end Store

/-! ## Evaluators that keep a diary -/

/-- The evaluator's own state, and the writes of dynamic variables, latest first. -/
structure Diary (σ : Type) where
  own : σ
  writes : List Write := []

def writeDynamic (name : String) (value : Value) : Run ε (Plain β (Diary σ)) Unit := do
  setDynamic name value
  modify fun c => { c with
    host := { c.host with
      writes := ⟨(c.chain.find? name).getD default, name, value⟩ :: c.host.writes } }

/-- Parameters bound as dynamic variables, whatever the receiver, and noted down. -/
def Binder.noting : Binder β (Diary σ) := fun pattern _ => bindDynamicBy writeDynamic pattern

def Context.store (c : Context (Plain β (Diary σ))) : Store :=
  ⟨c.chain, c.bindings, c.host.writes⟩

/-- The context has its base, and its dynamic variables are sound. Runs leave the stacks alone, put
allowed names in front of the chain, and create no blocks. -/
def Contract.storing (allowed : String -> Prop) : Contract (Plain β (Diary σ)) where
  Holds c := c.Based ∧ c.store.Sound
  Links c d := c.SameStacks d ∧ Chain.Grown allowed c.chain d.chain ∧ c.store.Kept d.store ∧
    d.blockCount = c.blockCount
  Faults _ := True
  refl c := ⟨.refl c, .refl _ _, .refl _, rfl⟩
  trans h₁ h₂ := ⟨h₁.1.trans h₂.1, h₁.2.1.trans h₂.2.1, h₁.2.2.1.trans h₂.2.2.1,
    h₂.2.2.2.trans h₁.2.2.2⟩

theorem writeDynamic_storing {allowed : String -> Prop} {name : String} (hname : allowed name)
    (value : Value) :
    (writeDynamic name value : Run ε (Plain β (Diary σ)) Unit).Keeps (.storing allowed) := by
  intro c hc
  have hgrown : Chain.Grown allowed c.chain (c.store.set name value).chain :=
  (c.store.grown_set name value).mono fun _ he => he ▸ hname
  exact ⟨⟨⟨hc.1.frames, hc.1.scopes, hc.1.marks, hc.1.blocks⟩, hc.2.set name value⟩,
    ⟨rfl, rfl, rfl, rfl, .refl _⟩, hgrown, hc.2.kept_set name value, rfl⟩

theorem newArray_storing {allowed : String -> Prop} (items : List Value) :
    (newArray items : Run ε (Plain β (Diary σ)) Value).Keeps (.storing allowed) :=
  fun _ hc => ⟨⟨⟨hc.1.frames, hc.1.scopes, hc.1.marks, hc.1.blocks⟩, hc.2⟩,
    ⟨rfl, rfl, rfl, rfl, .refl _⟩, .refl _ _, .refl _, rfl⟩

theorem Binder.noting_storing {allowed : String -> Prop} {pattern : Pattern}
    (hnames : ∀ name ∈ pattern.names, allowed name) (receiver value : Value) (strict : Bool) :
    (Binder.noting pattern receiver value strict : Run Failure (Plain β (Diary σ)) Unit).Keeps
      (.storing allowed) :=
  bindDynamicBy_keeps (fun name hname => writeDynamic_storing (hnames name hname)) newArray_storing
    value strict

theorem writeDynamic_balanced {F : Fault -> Prop} (name : String) (value : Value) :
    (writeDynamic name value : Run ε (Plain β (Diary σ)) Unit).Keeps (.balanced F) :=
  fun _ hc => ⟨⟨hc.frames, hc.scopes, hc.marks, hc.blocks⟩, rfl, rfl, rfl, rfl, .refl _⟩

theorem newArray_balanced {H : Host} {F : Fault -> Prop} (items : List Value) :
    (newArray items : Run ε H Value).Keeps (.balanced F) :=
  fun _ hc => ⟨⟨hc.frames, hc.scopes, hc.marks, hc.blocks⟩, rfl, rfl, rfl, rfl, .refl _⟩

theorem Binder.noting_balanced {F : Fault -> Prop} (pattern : Pattern) (receiver value : Value)
    (strict : Bool) :
    (Binder.noting pattern receiver value strict : Run Failure (Plain β (Diary σ)) Unit).Keeps
      (.balanced F) :=
  bindDynamicBy_keeps (fun name _ => writeDynamic_balanced name) newArray_balanced value strict

/-! ## Keeping a diary changes nothing else -/

def Context.undiaried (c : Context (Plain β (Diary σ))) : Context (Plain β σ) :=
  { c with host := c.host.own }

/-- The one run does to a context what the other does to the context without the diary. -/
def Run.Mirrors (noting : Run ε (Plain β (Diary σ)) α) (run : Run ε (Plain β σ) α) : Prop :=
  ∀ c, run c.undiaried =
    match noting c with
    | .ok a d => .ok a d.undiaried
    | .error exit d => .error exit d.undiaried

namespace Run.Mirrors

theorem pure (a : α) : Mirrors (Pure.pure a : Run ε (Plain β (Diary σ)) α) (Pure.pure a) :=
  fun _ => rfl

theorem raise (signal : ε) :
    Mirrors (Run.raise signal : Run ε (Plain β (Diary σ)) α) (Run.raise signal) :=
  fun _ => rfl

theorem bind {γ : Type} {noting : Run ε (Plain β (Diary σ)) α} {run : Run ε (Plain β σ) α}
    {notingNext : α -> Run ε (Plain β (Diary σ)) γ} {next : α -> Run ε (Plain β σ) γ}
    (h : noting.Mirrors run) (hn : ∀ a, (notingNext a).Mirrors (next a)) :
    (noting >>= notingNext).Mirrors (run >>= next) := by
  intro c
  have hc := h c
  cases hr : noting c with
  | ok a d =>
      rw [hr] at hc
      rw [Run.bind_of_ok hr, Run.bind_of_ok hc]
      exact hn a d
  | error exit d =>
      rw [hr] at hc
      rw [Run.bind_of_error hr, Run.bind_of_error hc]

theorem get {notingNext : Context (Plain β (Diary σ)) -> Run ε (Plain β (Diary σ)) α}
    {next : Context (Plain β σ) -> Run ε (Plain β σ) α}
    (hn : ∀ c, (notingNext c).Mirrors (next c.undiaried)) :
    (MonadState.get >>= notingNext).Mirrors (MonadState.get >>= next) :=
  fun c => hn c c

theorem ite {condition : Prop} [Decidable condition] {noting noting' : Run ε (Plain β (Diary σ)) α}
    {run run' : Run ε (Plain β σ) α} (h : noting.Mirrors run) (h' : noting'.Mirrors run') :
    (if condition then noting else noting').Mirrors (if condition then run else run') := by
  split
  · exact h
  · exact h'

end Run.Mirrors

theorem writeDynamic_mirrors (name : String) (value : Value) :
    (writeDynamic name value : Run ε (Plain β (Diary σ)) Unit).Mirrors (setDynamic name value) :=
  fun _ => rfl

theorem bindNames_mirrors (names : List String) (items : List Value) :
    (bindNamesBy writeDynamic names items : Run ε (Plain β (Diary σ)) Unit).Mirrors
      (bindNames names items) := by
  induction names generalizing items with
  | nil => exact .pure ()
  | cons name names ih => exact (writeDynamic_mirrors name _).bind fun _ => ih items.tail

/-- Noting the bindings of parameters down binds them as without a diary. -/
theorem Binder.noting_mirrors (pattern : Pattern) (receiver value : Value) (strict : Bool) :
    (Binder.noting pattern receiver value strict : Run Failure (Plain β (Diary σ)) Unit).Mirrors
      (Binder.default pattern receiver value strict) := by
  cases pattern with
  | single name => exact writeDynamic_mirrors name value
  | multiple names splat =>
      refine Run.Mirrors.get fun c => .ite (.raise _) ((bindNames_mirrors names _).bind fun _ => ?_)
      cases splat with
      | none => exact .pure ()
      | some rest =>
          exact Run.Mirrors.bind (fun _ => rfl) fun items => writeDynamic_mirrors rest items

/-! ## Operations on dynamic variables -/

/-- Operations that write a dynamic variable and note it down, and balanced ones that have nothing
to do with dynamic variables. -/
inductive Storing : Run Signal (Plain β (Diary σ)) Value -> Prop where
  | write (name : String) (value answer : Value) : Storing do
      writeDynamic name value
      return answer
  | other {op : Run Signal (Plain β (Diary σ)) Value} :
      op.Keeps (.balanced fun _ => True) ->
      (∀ c, (op.after c).store = c.store ∧ (op.after c).blockCount = c.blockCount) -> Storing op

theorem Storing.balanced {op : Run Signal (Plain β (Diary σ)) Value} (h : Storing op) :
    op.Keeps (.balanced fun _ => True) := by
  cases h with
  | write name value answer =>
      exact (writeDynamic_balanced name value).bind fun _ => Run.Keeps.pure answer
  | other hbalanced _ => exact hbalanced

theorem Storing.keeps {op : Run Signal (Plain β (Diary σ)) Value} (h : Storing op) :
    op.Keeps (.storing fun _ => True) := by
  cases h with
  | write name value answer =>
      exact (writeDynamic_storing trivial value).bind fun _ => Run.Keeps.pure answer
  | other hbalanced hsame =>
      intro c hc
      obtain ⟨hbased, hstacks⟩ := (hbalanced c hc.1).after
      obtain ⟨hstore, hcount⟩ := hsame c
      have hchain : (op.after c).chain = c.chain := congrArg Store.chain hstore
      refine Contract.Allows.of_after (fun _ => trivial) ⟨⟨hbased, ?_⟩, hstacks, ?_, ?_, hcount⟩
      · rw [hstore]
        exact hc.2
      · rw [hchain]
        exact .refl _ _
      · rw [hstore]
        exact .refl _

end ExecutionContext
