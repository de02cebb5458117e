import ExecutionContext.Proofs.Chains

/-! # Handles on chains that share cells

Chains of dynamic variables are handed around: an activation extends the one that its
block captured, and whoever holds a chain may extend it, or write through it. All chains
that come about in this way share one table of cells. Every link that one of them holds
has its cell in the table, and no cell belongs to two different links.

A write to a visible name goes to the cell that the name has, where all who hold it find
what was written; the first write to any other name makes a cell that nobody else has.
-/

namespace ExecutionContext

/-! ## Families of handles -/

/-- The cells, and the chains that are held on them, come from empty chains by the operations on
chains. A handle that an operation changes in place is a new one whose old one is forgotten. -/
inductive Bindings.Held : Bindings -> List Chain -> Prop where
  | nothing : Held {} []
  | empty {bindings : Bindings} {chains : List Chain} :
      Held bindings chains -> Held bindings ([] :: chains)
  | forget {bindings : Bindings} {chains fewer : List Chain} :
      Held bindings chains -> fewer ⊆ chains -> Held bindings fewer
  | activate {bindings : Bindings} {chains : List Chain} {chain : Chain} :
      Held bindings chains -> chain ∈ chains ->
      Held (chain.activate bindings).2 ((chain.activate bindings).1 :: chains)
  | declare {bindings : Bindings} {chains : List Chain} {chain : Chain} (name : String)
      (value : Value) : Held bindings chains -> chain ∈ chains ->
      Held (chain.declare bindings name value).2 ((chain.declare bindings name value).1 :: chains)
  | set {bindings : Bindings} {chains : List Chain} {chain : Chain} (name : String)
      (value : Value) : Held bindings chains -> chain ∈ chains ->
      Held (chain.set bindings name value).2 ((chain.set bindings name value).1 :: chains)
  | assign {bindings : Bindings} {chains : List Chain} {chain : Chain} (name : String)
      (value : Value) : Held bindings chains -> chain ∈ chains ->
      Held (chain.assign bindings name value).2 chains

/-- Every link has its cell, and no two links share one. -/
structure Bindings.Owns (bindings : Bindings) (links : List Link) : Prop where
  has : ∀ {link}, link ∈ links -> bindings.Has link.cell
  eq_of_cell : ∀ {link other}, link ∈ links -> other ∈ links -> link.cell = other.cell ->
    link = other

namespace Bindings.Owns

variable {bindings : Bindings} {links fewer : List Link} {chain : Chain}

theorem nil (bindings : Bindings) : bindings.Owns [] :=
  ⟨fun h => absurd h List.not_mem_nil, fun h => absurd h List.not_mem_nil⟩

theorem subset (h : bindings.Owns links) (hs : fewer ⊆ links) : bindings.Owns fewer :=
  ⟨fun hm => h.has (hs hm), fun hl ho => h.eq_of_cell (hs hl) (hs ho)⟩

theorem write (h : bindings.Owns links) (cell : Ref .link) (value : Value) :
    Bindings.Owns (bindings.write cell value) links :=
  ⟨fun hm => Arena.has_write.mpr (h.has hm), h.eq_of_cell⟩

theorem alloc (h : bindings.Owns links) (name : Option String) (value : Value) :
    Bindings.Owns (bindings.alloc value).2 (⟨name, (bindings.alloc value).1⟩ :: links) where
  has hm := by
    rcases List.mem_cons.mp hm with rfl | hold
    · exact Arena.has_alloc bindings value
    · exact (h.has hold).alloc value
  eq_of_cell {link other} hl ho hcell := by
    rcases List.mem_cons.mp hl with rfl | hlink
    · rcases List.mem_cons.mp ho with rfl | hother
      · rfl
      · have hnew := h.has hother
        rw [← hcell] at hnew
        exact absurd hnew (Arena.not_has_alloc bindings value)
    · rcases List.mem_cons.mp ho with rfl | hother
      · have hnew := h.has hlink
        rw [hcell] at hnew
        exact absurd hnew (Arena.not_has_alloc bindings value)
      · exact h.eq_of_cell hlink hother hcell

theorem extend (h : bindings.Owns links) (hc : chain ⊆ links) (name : Option String)
    (value : Value) : Bindings.Owns (chain.extend bindings name value).2
      ((chain.extend bindings name value).1 ++ links) := by
  refine (h.alloc name value).subset fun link hm => ?_
  rcases List.mem_append.mp hm with hown | hold
  · rcases List.mem_cons.mp hown with rfl | hchain
    · exact List.mem_cons_self
    · exact List.mem_cons_of_mem _ (hc hchain)
  · exact List.mem_cons_of_mem _ hold

theorem assign (h : bindings.Owns links) (chain : Chain) (name : String) (value : Value) :
    Bindings.Owns (chain.assign bindings name value).2 links := by
  unfold Chain.assign
  cases chain.find? name with
  | none => exact h
  | some cell => exact h.write cell value

theorem set (h : bindings.Owns links) (hc : chain ⊆ links) (name : String) (value : Value) :
    Bindings.Owns (chain.set bindings name value).2
      ((chain.set bindings name value).1 ++ links) := by
  unfold Chain.set
  cases chain.find? name with
  | none => exact h.extend hc (some name) value
  | some cell =>
      exact (h.write cell value).subset (List.append_subset.mpr ⟨hc, List.Subset.refl _⟩)

end Bindings.Owns

/-- Held chains own their cells, each link one of its own. -/
theorem Bindings.Held.owns {bindings : Bindings} {chains : List Chain}
    (h : bindings.Held chains) : bindings.Owns chains.flatten := by
  have hsub : ∀ {chain : Chain} {chains : List Chain}, chain ∈ chains ->
      chain ⊆ chains.flatten :=
    fun hc => (List.sublist_flatten_of_mem hc).subset
  induction h with
  | nothing => exact .nil _
  | empty _ ih => exact ih
  | forget _ hs ih =>
      refine ih.subset fun link hm => ?_
      obtain ⟨chain, hchain, hlink⟩ := List.mem_flatten.mp hm
      exact List.mem_flatten.mpr ⟨chain, hs hchain, hlink⟩
  | activate _ hc ih => exact ih.extend (hsub hc) none .nil
  | declare name value _ hc ih => exact ih.extend (hsub hc) (some name) value
  | set name value _ hc ih => exact ih.set (hsub hc) name value
  | assign name value _ _ ih => exact ih.assign _ name value

namespace Chain

variable {chain old mid new : Chain} {bindings before between after : Bindings}
  {names earlier later : List String} {name other : String} {value : Value} {cell : Ref .link}

/-! ## One write -/

theorem find?_declare (chain : Chain) (bindings : Bindings) (name other : String)
    (value : Value) : (chain.declare bindings name value).1.find? other =
      if other = name then some (bindings.alloc value).1 else chain.find? other := by
  by_cases h : other = name
  · simp [declare, extend, find?, h]
  · have hne : name ≠ other := fun heq => h heq.symm
    simp [declare, extend, find?, h, hne]

theorem get?_of_find? (h : chain.find? name = some cell) :
    chain.get? bindings name = some (bindings.read cell) := by
  rw [get?, h, Option.map_some]

theorem get?_of_find?_none (h : chain.find? name = none) : chain.get? bindings name = none := by
  rw [get?, h, Option.map_none]

/-- A write to the cell of one name is read back under that name, and under no other. -/
theorem get?_write (h : bindings.Owns chain) (hname : chain.find? name = some cell) (value : Value)
    (other : String) : chain.get? (bindings.write cell value) other =
      if other = name then some value else chain.get? bindings other := by
  by_cases heq : other = name
  · rw [if_pos heq, heq, get?_of_find? hname,
      Arena.read_write_self (h.has (mem_of_find? hname))]
  · rw [if_neg heq]
    cases hother : chain.find? other with
    | none => rw [get?_of_find?_none hother, get?_of_find?_none hother]
    | some held =>
        have hne : cell ≠ held := by
          intro hcell
          have hlink := h.eq_of_cell (mem_of_find? hname) (mem_of_find? hother) hcell
          exact heq (Option.some.inj (congrArg Link.name hlink)).symm
        rw [get?_of_find? hother, get?_of_find? hother, Arena.read_write_of_ne _ hne]

theorem get?_declare (h : bindings.Owns chain) (name : String) (value : Value) (other : String) :
    (chain.declare bindings name value).1.get? (chain.declare bindings name value).2 other =
      if other = name then some value else chain.get? bindings other := by
  have hfind := find?_declare chain bindings name other value
  by_cases heq : other = name
  · rw [if_pos heq] at hfind ⊢
    rw [get?_of_find? hfind]
    exact congrArg some (Arena.read_alloc_self bindings value)
  · rw [if_neg heq] at hfind ⊢
    simp only [get?, hfind]
    cases hother : chain.find? other with
    | none => rfl
    | some held =>
        exact congrArg some (Arena.read_alloc_of_has (h.has (mem_of_find? hother)) value)

theorem get?_set (h : bindings.Owns chain) (name : String) (value : Value) (other : String) :
    (chain.set bindings name value).1.get? (chain.set bindings name value).2 other =
      if other = name then some value else chain.get? bindings other := by
  unfold set
  cases hname : chain.find? name with
  | some cell => exact get?_write h hname value other
  | none => exact get?_declare h name value other

/-- Writes to the given names led from one chain to another: visible names keep their cells, other
names get new ones, and of the cells there were only those of the names may have changed. -/
structure Overwrites (names : List String) (old : Chain) (before : Bindings) (new : Chain)
    (after : Bindings) : Prop where
  kept : ∀ {name cell}, old.find? name = some cell -> new.find? name = some cell
  fresh : ∀ {name cell}, old.find? name = none -> new.find? name = some cell -> ¬ before.Has cell
  visible : ∀ {name}, new.isDefined name = true ↔ old.isDefined name = true ∨ name ∈ names
  elsewhere : ∀ {cell}, before.Has cell -> (∀ name ∈ names, old.find? name ≠ some cell) ->
    after.read cell = before.read cell
  grows : ∀ {cell}, before.Has cell -> after.Has cell

namespace Overwrites

theorem refl (chain : Chain) (bindings : Bindings) :
    Overwrites [] chain bindings chain bindings where
  kept h := h
  fresh hnone hsome := by
    rw [hnone] at hsome
    cases hsome
  visible := by simp
  elsewhere _ _ := rfl
  grows h := h

theorem trans (h₁ : Overwrites earlier old before mid between)
    (h₂ : Overwrites later mid between new after) :
    Overwrites (earlier ++ later) old before new after where
  kept h := h₂.kept (h₁.kept h)
  fresh {name cell} hnone hsome := by
    cases hmid : mid.find? name with
    | none => exact fun hhas => h₂.fresh hmid hsome (h₁.grows hhas)
    | some held =>
        have hcell := h₂.kept hmid
        rw [hsome] at hcell
        rw [Option.some.inj hcell]
        exact h₁.fresh hnone hmid
  visible {name} := by
    rw [h₂.visible, h₁.visible, List.mem_append, or_assoc]
  elsewhere {cell} hhas hne := by
    have hfirst := h₁.elsewhere hhas fun name hname => hne name (List.mem_append_left _ hname)
    rw [← hfirst]
    -- The cell was there at first, so no name can have got it in between.
    refine h₂.elsewhere (h₁.grows hhas) fun name hname hcell => ?_
    cases hold : old.find? name with
    | none => exact h₁.fresh hold hcell hhas
    | some held =>
        have hkept := h₁.kept hold
        rw [hcell] at hkept
        rw [← Option.some.inj hkept] at hold
        exact hne name (List.mem_append_right _ hname) hold
  grows h := h₂.grows (h₁.grows h)

end Overwrites

theorem write_overwrites (hname : chain.find? name = some cell) (bindings : Bindings)
    (value : Value) : Overwrites [name] chain bindings chain (bindings.write cell value) where
  kept h := h
  fresh hnone hsome := by
    rw [hnone] at hsome
    cases hsome
  visible {other} := by
    have hdefined : chain.isDefined name = true := by rw [isDefined, hname, Option.isSome_some]
    refine ⟨Or.inl, fun h => h.elim id fun heq => ?_⟩
    rw [List.mem_singleton.mp heq]
    exact hdefined
  elsewhere _ hne := by
    refine Arena.read_write_of_ne _ (fun heq => ?_) value
    rw [heq] at hname
    exact hne name (List.mem_singleton_self name) hname
  grows := Arena.has_write.mpr

theorem declare_overwrites (hname : chain.find? name = none) (bindings : Bindings)
    (value : Value) : Overwrites [name] chain bindings (chain.declare bindings name value).1
      (chain.declare bindings name value).2 where
  kept {other cell} h := by
    have hne : other ≠ name := by
      intro heq
      rw [heq, hname] at h
      cases h
    rw [find?_declare, if_neg hne, h]
  fresh {other cell} hnone hsome := by
    by_cases heq : other = name
    · rw [find?_declare, if_pos heq] at hsome
      rw [← Option.some.inj hsome]
      exact Arena.not_has_alloc bindings value
    · rw [find?_declare, if_neg heq, hnone] at hsome
      cases hsome
  visible {other} := by
    by_cases heq : other = name
    · simp [isDefined, find?_declare, heq]
    · simp [isDefined, find?_declare, heq]
  elsewhere hhas _ := Arena.read_alloc_of_has hhas value
  grows hhas := hhas.alloc value

theorem set_overwrites (chain : Chain) (bindings : Bindings) (name : String) (value : Value) :
    Overwrites [name] chain bindings (chain.set bindings name value).1
      (chain.set bindings name value).2 := by
  unfold set
  cases hname : chain.find? name with
  | some cell => exact write_overwrites hname bindings value
  | none => exact declare_overwrites hname bindings value

/-! ## A series of writes -/

def setAll (chain : Chain) (bindings : Bindings) : List (String × Value) -> Chain × Bindings
  | [] => (chain, bindings)
  | (name, value) :: writes =>
      setAll (chain.set bindings name value).1 (chain.set bindings name value).2 writes

theorem setAll_append (chain : Chain) (bindings : Bindings) (first last : List (String × Value)) :
    chain.setAll bindings (first ++ last) =
      (chain.setAll bindings first).1.setAll (chain.setAll bindings first).2 last := by
  induction first generalizing chain bindings with
  | nil => rfl
  | cons write first ih => exact ih _ _

theorem setAll_overwrites (chain : Chain) (bindings : Bindings)
    (writes : List (String × Value)) :
    Overwrites (writes.map Prod.fst) chain bindings (chain.setAll bindings writes).1
      (chain.setAll bindings writes).2 := by
  induction writes generalizing chain bindings with
  | nil => exact .refl chain bindings
  | cons write writes ih => exact (set_overwrites chain bindings write.1 write.2).trans (ih _ _)

theorem setAll_held {chains : List Chain} (h : bindings.Held chains) (hc : chain ∈ chains)
    (writes : List (String × Value)) :
    (chain.setAll bindings writes).2.Held ((chain.setAll bindings writes).1 :: chains) := by
  induction writes generalizing chain bindings chains with
  | nil => exact h.forget (List.cons_subset.mpr ⟨hc, List.Subset.refl _⟩)
  | cons write writes ih =>
      have hlast := ih (h.set write.1 write.2 hc) List.mem_cons_self
      refine hlast.forget ?_
      exact List.cons_subset_cons _ (List.subset_cons_self _ _)

theorem setAll_owns (h : bindings.Owns chain) (writes : List (String × Value)) :
    (chain.setAll bindings writes).2.Owns (chain.setAll bindings writes).1 := by
  induction writes generalizing chain bindings with
  | nil => exact h
  | cons write writes ih =>
      refine ih ?_
      exact (h.set (List.Subset.refl _) write.1 write.2).subset (List.subset_append_left _ _)

theorem get?_setAll_of_notMem (h : bindings.Owns chain) {writes : List (String × Value)}
    (hname : name ∉ writes.map Prod.fst) :
    (chain.setAll bindings writes).1.get? (chain.setAll bindings writes).2 name =
      chain.get? bindings name := by
  induction writes generalizing chain bindings with
  | nil => rfl
  | cons write writes ih =>
      have hne : name ≠ write.1 := List.ne_of_not_mem_cons hname
      have hrest : name ∉ writes.map Prod.fst := List.not_mem_of_not_mem_cons hname
      have howns := setAll_owns h [write]
      exact (ih howns hrest).trans ((get?_set h write.1 write.2 name).trans (if_neg hne))

/-- The last write to a name is the one that is read. -/
theorem get?_setAll_of_last (h : bindings.Owns chain) (first : List (String × Value))
    {last : List (String × Value)} (hlast : name ∉ last.map Prod.fst) (value : Value) :
    (chain.setAll bindings (first ++ (name, value) :: last)).1.get?
      (chain.setAll bindings (first ++ (name, value) :: last)).2 name = some value := by
  have hfirst := setAll_owns h first
  have hwritten := setAll_owns hfirst [(name, value)]
  rw [setAll_append]
  exact (get?_setAll_of_notMem hwritten hlast).trans
    ((get?_set hfirst name value name).trans (if_pos rfl))

end Chain

end ExecutionContext
