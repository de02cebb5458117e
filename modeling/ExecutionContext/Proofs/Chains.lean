import ExecutionContext.Chain

/-! # Chains that grow, and the activations they belong to

While one activation of a block runs, variables are put in front of its chain and
nothing else happens to it: the innermost mark stays the same, and so do all links from
there on. In a chain where no name occurs twice every link can be seen, so that a name
which is visible in a chain means the same cell in every longer one.
-/

namespace ExecutionContext

namespace Chain

variable {allowed : String -> Prop} {old new newer chain : Chain} {name : String}
  {cell : Ref .link}

/-- The chain from the innermost mark on: that on which the present activation began. Outside of
all activations it is empty. -/
def outset (chain : Chain) : Chain :=
  chain.dropWhile (fun link => link.name.isSome)

/-- The cell of the innermost mark. It tells the activations of blocks apart; code outside of all
of them has none. -/
def activation? (chain : Chain) : Option (Ref .link) :=
  chain.outset.head?

def declared (chain : Chain) : List String :=
  chain.filterMap Link.name

theorem outset_suffix (chain : Chain) : chain.outset <:+ chain :=
  List.dropWhile_suffix _

@[simp] theorem activation?_mark (cell : Ref .link) (chain : Chain) :
    activation? (⟨none, cell⟩ :: chain) = some cell := rfl

/-! ## What is visible -/

theorem mem_of_find? (h : chain.find? name = some cell) : ⟨some name, cell⟩ ∈ chain := by
  obtain ⟨link, hlink, rfl⟩ := Option.map_eq_some_iff.mp h
  have hname : link.name = some name := by simpa using List.find?_some hlink
  have hmem := List.mem_of_find?_eq_some hlink
  rw [← hname]
  exact hmem

theorem mem_declared (h : ⟨some name, cell⟩ ∈ chain) : name ∈ chain.declared :=
  List.mem_filterMap.mpr ⟨_, h, rfl⟩

theorem find?_eq_none_iff : chain.find? name = none ↔ name ∉ chain.declared := by
  simp only [find?, Option.map_eq_none_iff, List.find?_eq_none, decide_eq_true_eq, declared,
    List.mem_filterMap, not_exists, not_and]

theorem isDefined_iff : chain.isDefined name = true ↔ name ∈ chain.declared := by
  by_cases h : name ∈ chain.declared
  · have hfind : chain.find? name ≠ none := fun hnone => find?_eq_none_iff.mp hnone h
    simp [isDefined, h, Option.isSome_iff_ne_none, hfind]
  · simp [isDefined, h, find?_eq_none_iff.mpr h]

theorem mem_names : name ∈ chain.names ↔ name ∈ chain.declared := by
  induction chain with
  | nil => exact Iff.rfl
  | cons link rest ih =>
      cases h : link.name with
      | none => simpa only [Chain.names, h, declared, List.filterMap_cons] using ih
      | some bound =>
          simp only [declared] at ih
          simp only [Chain.names, h, declared, List.filterMap_cons, List.mem_cons,
            List.mem_filter, decide_eq_true_eq, ih]
          by_cases heq : name = bound
          · simp [heq]
          · simp [heq]

theorem mem_names_iff_isDefined : name ∈ chain.names ↔ chain.isDefined name = true :=
  mem_names.trans isDefined_iff.symm

/-- A visible name keeps its cell in a longer chain in which no name occurs twice. -/
theorem find?_of_suffix (h : old <:+ new) (hnodup : new.declared.Nodup)
    (hfind : old.find? name = some cell) : new.find? name = some cell := by
  obtain ⟨own, rfl⟩ := h
  have hold : name ∈ declared old := mem_declared (mem_of_find? hfind)
  have hown : name ∉ declared own := by
    intro hin
    rw [declared, List.filterMap_append, List.nodup_append] at hnodup
    exact hnodup.2.2 name hin name hold rfl
  have hnone := find?_eq_none_iff.mpr hown
  simp only [find?, Option.map_eq_none_iff] at hnone
  simp only [find?, List.find?_append, hnone, Option.none_or]
  exact hfind

/-! ## Growth -/

/-- Variables with allowed names were put in front of the one chain, and gave the other. -/
def Grown (allowed : String -> Prop) (old new : Chain) : Prop :=
  ∃ own : Chain, new = own ++ old ∧ ∀ link ∈ own, ∃ name, link.name = some name ∧ allowed name

namespace Grown

theorem refl (allowed : String -> Prop) (chain : Chain) : Grown allowed chain chain :=
  ⟨[], rfl, fun _ h => absurd h List.not_mem_nil⟩

theorem trans (h₁ : Grown allowed old new) (h₂ : Grown allowed new newer) :
    Grown allowed old newer := by
  obtain ⟨first, rfl, hfirst⟩ := h₁
  obtain ⟨second, rfl, hsecond⟩ := h₂
  refine ⟨second ++ first, (List.append_assoc _ _ _).symm, fun link h => ?_⟩
  rcases List.mem_append.mp h with hin | hin
  · exact hsecond link hin
  · exact hfirst link hin

theorem mono {wider : String -> Prop} (h : Grown allowed old new)
    (hw : ∀ name, allowed name -> wider name) : Grown wider old new := by
  obtain ⟨own, rfl, hown⟩ := h
  refine ⟨own, rfl, fun link hlink => ?_⟩
  obtain ⟨name, hname, hallowed⟩ := hown link hlink
  exact ⟨name, hname, hw name hallowed⟩

theorem suffix (h : Grown allowed old new) : old <:+ new := by
  obtain ⟨own, rfl, _⟩ := h
  exact List.suffix_append own old

theorem cons (hname : allowed name) (cell : Ref .link) (chain : Chain) :
    Grown allowed chain (⟨some name, cell⟩ :: chain) := by
  refine ⟨[⟨some name, cell⟩], rfl, fun link h => ?_⟩
  rw [List.mem_singleton.mp h]
  exact ⟨name, rfl, hname⟩

/-- Growth stays within the activation. -/
theorem outset_eq (h : Grown allowed old new) : new.outset = old.outset := by
  obtain ⟨own, rfl, hown⟩ := h
  induction own with
  | nil => rfl
  | cons link own ih =>
      obtain ⟨name, hname, _⟩ := hown link List.mem_cons_self
      have htail := ih fun other hother => hown other (List.mem_cons_of_mem link hother)
      rw [← htail]
      simp [outset, hname]

theorem activation?_eq (h : Grown allowed old new) : new.activation? = old.activation? := by
  simp only [activation?, h.outset_eq]

theorem isDefined (h : Grown allowed old new) (hnew : new.isDefined name = true) :
    old.isDefined name = true ∨ allowed name := by
  obtain ⟨own, rfl, hown⟩ := h
  rw [isDefined_iff, declared, List.filterMap_append, List.mem_append] at hnew
  rcases hnew with hin | hin
  · obtain ⟨link, hlink, hname⟩ := List.mem_filterMap.mp hin
    obtain ⟨other, hother, hallowed⟩ := hown link hlink
    rw [hname] at hother
    cases hother
    exact Or.inr hallowed
  · exact Or.inl (isDefined_iff.mpr hin)

end Grown

end Chain

end ExecutionContext
