import ExecutionContext.Module
import Mathlib.Logic.Relation

/-! # Chains of superclasses

A class is linked to its superclass, which was made before it. So the links followed from any
module come to an end, within as many steps as there are modules; a walk along the links finds
what a search through the stored chain finds; and inheritance, which is reachability along the
links, is a partial order. Making modules and binding constants keeps all links as they are.
-/

namespace ExecutionContext

namespace Heap

variable {heap later : Heap} {β : Type}

/-! ## What the modules of a heap determine -/

theorem module_of_modules (h : later.modules = heap.modules) (ref : Ref .module) :
    later.module ref = heap.module ref := by
  rw [Heap.module, Heap.module, h]

theorem isClass_of_modules (h : later.modules = heap.modules) (ref : Ref .module) :
    later.isClass ref = heap.isClass ref :=
  congrArg Module.isClass (module_of_modules h ref)

theorem constant?_of_modules (h : later.modules = heap.modules) (ref : Ref .module)
    (name : String) : later.constant? ref name = heap.constant? ref name :=
  congrArg (fun module => module.constants.get? name) (module_of_modules h ref)

/-! ## Links -/

def IsUnder (heap : Heap) (ref parent : Ref .module) : Prop :=
  heap.superclass? ref = some parent

/-- The links from a module lead to these superclasses, nearest first, and then end. -/
inductive Superclasses (heap : Heap) : Ref .module -> List (Ref .module) -> Prop where
  | root {ref : Ref .module} : heap.superclass? ref = none -> Superclasses heap ref []
  | under {ref parent : Ref .module} {supers : List (Ref .module)} :
      heap.IsUnder ref parent -> Superclasses heap parent supers ->
      Superclasses heap ref (parent :: supers)

/-- Every superclass was made before its subclasses, and a class has stored its superclass in
front of what that one has stored. -/
def Linked (heap : Heap) : Prop :=
  ∀ ref parent, heap.IsUnder ref parent -> parent.index < ref.index ∧
    (heap.module ref).ancestors = parent :: (heap.module parent).ancestors

/-- Go up the links from a module to the first one where something is found, for at most so many
steps: no answer when the steps do not suffice. -/
def searchUp (heap : Heap) (found : Ref .module -> Option β) :
    Nat -> Ref .module -> Option (Option β)
  | 0, _ => none
  | steps + 1, ref =>
      match found ref with
      | some b => some (some b)
      | none =>
          match heap.superclass? ref with
          | some parent => searchUp heap found steps parent
          | none => some none

theorem ancestors_of_superclass?_none {ref : Ref .module} (h : heap.superclass? ref = none) :
    (heap.module ref).ancestors = [] :=
  List.head?_eq_none_iff.mp h

theorem Superclasses.unique {ref : Ref .module} {supers others : List (Ref .module)}
    (h : heap.Superclasses ref supers) (ho : heap.Superclasses ref others) : supers = others := by
  induction h generalizing others with
  | root hroot =>
      cases ho with
      | root _ => rfl
      | under hunder _ => cases hroot.symm.trans hunder
  | under hunder _ ih =>
      cases ho with
      | root hroot => cases hroot.symm.trans hunder
      | under hother hrest =>
          cases Option.some.inj (hunder.symm.trans hother)
          rw [ih hrest]

namespace Linked

/-- The links from every module end, and what it has stored is where they lead. -/
theorem superclasses (h : heap.Linked) (ref : Ref .module) :
    heap.Superclasses ref (heap.module ref).ancestors := by
  induction hi : ref.index using Nat.strongRecOn generalizing ref with
  | ind index ih =>
      cases hs : heap.superclass? ref with
      | none =>
          rw [ancestors_of_superclass?_none hs]
          exact .root hs
      | some parent =>
          obtain ⟨hlt, hstored⟩ := h ref parent hs
          rw [hstored]
          exact .under hs (ih parent.index (hi ▸ hlt) parent rfl)

theorem superclasses_iff (h : heap.Linked) {ref : Ref .module} {supers : List (Ref .module)} :
    heap.Superclasses ref supers ↔ (heap.module ref).ancestors = supers := by
  constructor
  · exact (h.superclasses ref).unique
  · intro hstored
    rw [← hstored]
    exact h.superclasses ref

/-- The search ends within as many steps as modules were made before, and finds what is found first
on the module itself and its superclasses. -/
theorem searchUp_eq (h : heap.Linked) (found : Ref .module -> Option β) {ref : Ref .module}
    {steps : Nat} (hsteps : ref.index < steps) :
    heap.searchUp found steps ref =
      some ((ref :: (heap.module ref).ancestors).findSome? found) := by
  induction steps generalizing ref with
  | zero => omega
  | succ steps ih =>
      rw [searchUp, List.findSome?_cons]
      cases hf : found ref with
      | some b => rfl
      | none =>
          cases hs : heap.superclass? ref with
          | none => rw [ancestors_of_superclass?_none hs]; rfl
          | some parent =>
              obtain ⟨hlt, hstored⟩ := h ref parent hs
              rw [hstored]
              exact ih (by omega)

theorem searchUp_inheritsFrom (h : heap.Linked) {ref : Ref .module} {steps : Nat}
    (hsteps : ref.index < steps) (ancestor : Ref .module) :
    heap.searchUp (fun m => if m = ancestor then some () else none) steps ref =
      some (if heap.inheritsFrom ref ancestor = true then some () else none) := by
  rw [h.searchUp_eq _ hsteps]
  congr 1
  unfold inheritsFrom
  induction ref :: (heap.module ref).ancestors with
  | nil => rfl
  | cons m rest ih =>
      rw [List.findSome?_cons]
      by_cases hm : m = ancestor
      · simp [hm]
      · have hne : ancestor ≠ m := fun hsame => hm hsame.symm
        simp only [if_neg hm, List.mem_cons, hne, false_or]
        exact ih

theorem inheritsFrom_iff (h : heap.Linked) {ref ancestor : Ref .module} :
    heap.inheritsFrom ref ancestor = true ↔ Relation.ReflTransGen heap.IsUnder ref ancestor := by
  simp only [inheritsFrom, decide_eq_true_eq]
  constructor
  · have hchain := h.superclasses ref
    generalize (heap.module ref).ancestors = supers at hchain
    induction hchain with
    | root _ =>
        intro hancestor
        rw [List.mem_singleton.mp hancestor]
    | under hunder _ ih =>
        intro hancestor
        rcases List.mem_cons.mp hancestor with rfl | hrest
        · exact .refl
        · exact .head hunder (ih hrest)
  · intro hreach
    induction hreach using Relation.ReflTransGen.head_induction_on with
    | refl => exact List.mem_cons_self
    | head hunder _ ih =>
        rw [(h _ _ hunder).2]
        exact List.mem_cons_of_mem _ ih

theorem inheritsFrom_refl (ref : Ref .module) : heap.inheritsFrom ref ref = true := by
  simp [inheritsFrom]

theorem inheritsFrom_trans (h : heap.Linked) {a b c : Ref .module}
    (hab : heap.inheritsFrom a b = true) (hbc : heap.inheritsFrom b c = true) :
    heap.inheritsFrom a c = true :=
  h.inheritsFrom_iff.mpr ((h.inheritsFrom_iff.mp hab).trans (h.inheritsFrom_iff.mp hbc))

/-- Going up never leads to a module that was made later. -/
theorem index_le (h : heap.Linked) {a b : Ref .module} (hab : heap.inheritsFrom a b = true) :
    b.index ≤ a.index := by
  have hreach := h.inheritsFrom_iff.mp hab
  induction hreach with
  | refl => exact Nat.le_refl _
  | tail _ hunder ih =>
      have hlt := (h _ _ hunder).1
      have hle := ih (h.inheritsFrom_iff.mpr ‹_›)
      omega

theorem inheritsFrom_antisymm (h : heap.Linked) {a b : Ref .module}
    (hab : heap.inheritsFrom a b = true) (hba : heap.inheritsFrom b a = true) : a = b := by
  have hle := h.index_le hab
  have hge := h.index_le hba
  have hindex : a.index = b.index := by omega
  cases a
  cases b
  simp_all

end Linked

/-! ## Trees of classes -/

/-- All classes form a tree: everything above a class is a class, the chain of each comes to the
root, and the root is under nothing. -/
structure Tree (heap : Heap) (root : Ref .module) : Prop where
  linked : heap.Linked
  root_class : heap.isClass root = true
  root_top : heap.superclass? root = none
  classes : ∀ ref parent, heap.IsUnder ref parent ->
    heap.isClass ref = true ∧ heap.isClass parent = true
  rooted : ∀ ref, heap.isClass ref = true -> heap.inheritsFrom ref root = true

/-- The modules and objects of a heap are in a later one as they were: a module with its name, its
sort and its superclasses, and an object with its class. -/
structure Retains (heap later : Heap) : Prop where
  modules : ∀ ref, heap.modules.Has ref -> later.modules.Has ref
  name : ∀ ref, heap.modules.Has ref -> later.moduleName ref = heap.moduleName ref
  sort : ∀ ref, heap.modules.Has ref -> later.isClass ref = heap.isClass ref
  ancestors : ∀ ref, heap.modules.Has ref ->
    (later.module ref).ancestors = (heap.module ref).ancestors
  objects : ∀ ref, heap.objects.Has ref ->
    later.objects.Has ref ∧ later.objectClass ref = heap.objectClass ref

namespace Retains

theorem refl (heap : Heap) : heap.Retains heap :=
  ⟨fun _ h => h, fun _ _ => rfl, fun _ _ => rfl, fun _ _ => rfl, fun _ h => ⟨h, rfl⟩⟩

theorem trans {last : Heap} (h : heap.Retains later) (h' : later.Retains last) :
    heap.Retains last where
  modules ref href := h'.modules ref (h.modules ref href)
  name ref href := (h'.name ref (h.modules ref href)).trans (h.name ref href)
  sort ref href := (h'.sort ref (h.modules ref href)).trans (h.sort ref href)
  ancestors ref href := (h'.ancestors ref (h.modules ref href)).trans (h.ancestors ref href)
  objects ref href :=
    have hlater := h.objects ref href
    ⟨(h'.objects ref hlater.1).1, (h'.objects ref hlater.1).2.trans hlater.2⟩

theorem superclass? (h : heap.Retains later) {ref : Ref .module} (href : heap.modules.Has ref) :
    later.superclass? ref = heap.superclass? ref := by
  unfold Heap.superclass?
  rw [h.ancestors ref href]

theorem inheritsFrom (h : heap.Retains later) {ref : Ref .module} (href : heap.modules.Has ref)
    (ancestor : Ref .module) : later.inheritsFrom ref ancestor = heap.inheritsFrom ref ancestor := by
  unfold Heap.inheritsFrom
  rw [h.ancestors ref href]

end Retains

/-! ## Making modules -/

theorem module_of_not_has {ref : Ref .module} (h : ¬ heap.modules.Has ref) :
    heap.module ref = default := by
  have hsize : heap.modules.cells.size ≤ ref.index := Nat.le_of_not_lt h
  simp [Heap.module, Arena.read, Array.getD_eq_getD_getElem?, Array.getElem?_eq_none hsize]

theorem has_of_isClass {ref : Ref .module} (h : heap.isClass ref = true) : heap.modules.Has ref := by
  by_cases href : heap.modules.Has ref
  · exact href
  · rw [isClass, module_of_not_has href] at h
    cases h

theorem has_of_superclass? {ref parent : Ref .module} (h : heap.IsUnder ref parent) :
    heap.modules.Has ref := by
  by_cases href : heap.modules.Has ref
  · exact href
  · rw [IsUnder, Heap.superclass?, module_of_not_has href] at h
    cases h

def adding (heap : Heap) (made : Module) : Heap :=
  { heap with modules := (heap.modules.alloc made).2 }

def next (heap : Heap) : Ref .module :=
  ⟨heap.modules.size⟩

theorem not_has_next (heap : Heap) : ¬ heap.modules.Has heap.next :=
  Nat.lt_irrefl _

theorem module_adding_next (heap : Heap) (made : Module) :
    (heap.adding made).module heap.next = made :=
  Arena.read_alloc_self heap.modules made

theorem module_adding_of_has {ref : Ref .module} (h : heap.modules.Has ref) (made : Module) :
    (heap.adding made).module ref = heap.module ref :=
  Arena.read_alloc_of_has h made

theorem has_adding_iff {ref : Ref .module} {made : Module} :
    (heap.adding made).modules.Has ref ↔ heap.modules.Has ref ∨ ref = heap.next := by
  have hsize : (heap.adding made).modules.size = heap.modules.size + 1 :=
    Arena.size_alloc heap.modules made
  have hnext : ref = heap.next ↔ ref.index = heap.modules.size := by
    cases ref
    simp [next]
  rw [hnext]
  simp only [Arena.Has, hsize]
  omega

theorem retains_adding (heap : Heap) (made : Module) : heap.Retains (heap.adding made) where
  modules _ href := href.alloc made
  name _ href := congrArg Module.name (module_adding_of_has href made)
  sort _ href := congrArg Module.isClass (module_adding_of_has href made)
  ancestors _ href := congrArg Module.ancestors (module_adding_of_has href made)
  objects _ href := ⟨href, rfl⟩

/-- What is made fits into the heap: a class is under a class that is there already, and a plain
module is under nothing. -/
def Fits (heap : Heap) (made : Module) : Prop :=
  made.isClass = false ∧ made.ancestors = [] ∨
    made.isClass = true ∧ ∃ parent, heap.isClass parent = true ∧
      made.ancestors = parent :: (heap.module parent).ancestors

theorem Tree.adding {root : Ref .module} (h : heap.Tree root) {made : Module}
    (hfits : heap.Fits made) : (heap.adding made).Tree root := by
  have hretains := heap.retains_adding made
  -- A link of the larger heap is a link of the smaller one, or that of the new class.
  have hlink : ∀ ref parent, (heap.adding made).IsUnder ref parent ->
      heap.modules.Has ref ∧ heap.IsUnder ref parent ∨
        ref = heap.next ∧ made.isClass = true ∧ heap.isClass parent = true ∧
          made.ancestors = parent :: (heap.module parent).ancestors := by
    intro ref parent hunder
    rcases has_adding_iff.mp (has_of_superclass? hunder) with href | rfl
    · exact Or.inl ⟨href, (hretains.superclass? href).symm.trans hunder⟩
    · have hhead : made.ancestors.head? = some parent := by
        rw [← module_adding_next heap made]
        exact hunder
      rcases hfits with ⟨_, hnone⟩ | ⟨hclass, other, hother, hstored⟩
      · rw [hnone] at hhead
        cases hhead
      · rw [hstored] at hhead
        cases hhead
        exact Or.inr ⟨rfl, hclass, hother, hstored⟩
  have hroot := has_of_isClass h.root_class
  refine ⟨?_, ?_, ?_, ?_, ?_⟩
  · intro ref parent hunder
    rcases hlink ref parent hunder with ⟨href, hold⟩ | ⟨rfl, _, hparent, hstored⟩
    · have hparent := (h.classes ref parent hold).2
      rw [hretains.ancestors ref href, hretains.ancestors parent (has_of_isClass hparent)]
      exact h.linked ref parent hold
    · have hhas := has_of_isClass hparent
      rw [module_adding_next, hretains.ancestors parent hhas]
      exact ⟨hhas, hstored⟩
  · rw [hretains.sort root hroot]
    exact h.root_class
  · rw [hretains.superclass? hroot]
    exact h.root_top
  · intro ref parent hunder
    rcases hlink ref parent hunder with ⟨href, hold⟩ | ⟨rfl, hclass, hparent, _⟩
    · obtain ⟨hclass, hparent⟩ := h.classes ref parent hold
      rw [hretains.sort ref href, hretains.sort parent (has_of_isClass hparent)]
      exact ⟨hclass, hparent⟩
    · rw [hretains.sort parent (has_of_isClass hparent), isClass, module_adding_next]
      exact ⟨hclass, hparent⟩
  · intro ref hclass
    rcases has_adding_iff.mp (has_of_isClass hclass) with href | rfl
    · rw [hretains.inheritsFrom href]
      rw [hretains.sort ref href] at hclass
      exact h.rooted ref hclass
    · rw [isClass, module_adding_next] at hclass
      rcases hfits with ⟨hplain, _⟩ | ⟨_, parent, hparent, hstored⟩
      · rw [hplain] at hclass
        cases hclass
      · have habove := h.rooted parent hparent
        unfold inheritsFrom at habove ⊢
        rw [module_adding_next, hstored]
        simp only [decide_eq_true_eq] at habove ⊢
        exact List.mem_cons_of_mem _ habove

/-! ## Binding constants -/

theorem module_setConstant_self {ref : Ref .module} (h : heap.modules.Has ref) (name : String)
    (value : Value) : (heap.setConstant ref name value).module ref =
      { heap.module ref with constants := (heap.module ref).constants.insert name value } :=
  Arena.read_write_self h _

theorem module_setConstant_of_ne {ref other : Ref .module} (h : ref ≠ other) (name : String)
    (value : Value) : (heap.setConstant ref name value).module other = heap.module other :=
  Arena.read_write_of_ne heap.modules h _

/-- Binding a constant changes nothing else about a module. -/
theorem module_setConstant (heap : Heap) (ref : Ref .module) (name : String) (value : Value)
    (other : Ref .module) : ∃ constants, (heap.setConstant ref name value).module other =
      { heap.module other with constants := constants } := by
  by_cases hsame : ref = other
  · subst hsame
    by_cases href : heap.modules.Has ref
    · exact ⟨_, module_setConstant_self href name value⟩
    · have hlater : ¬ (heap.setConstant ref name value).modules.Has ref :=
        fun h => href (Arena.has_write.mp h)
      rw [module_of_not_has hlater, module_of_not_has href]
      exact ⟨_, rfl⟩
  · exact ⟨_, module_setConstant_of_ne hsame name value⟩

theorem isClass_setConstant (heap : Heap) (ref : Ref .module) (name : String) (value : Value)
    (other : Ref .module) :
    (heap.setConstant ref name value).isClass other = heap.isClass other := by
  obtain ⟨constants, h⟩ := heap.module_setConstant ref name value other
  rw [isClass, h]
  rfl

theorem ancestors_setConstant (heap : Heap) (ref : Ref .module) (name : String) (value : Value)
    (other : Ref .module) :
    ((heap.setConstant ref name value).module other).ancestors = (heap.module other).ancestors := by
  obtain ⟨constants, h⟩ := heap.module_setConstant ref name value other
  rw [h]

theorem moduleName_setConstant (heap : Heap) (ref : Ref .module) (name : String) (value : Value)
    (other : Ref .module) :
    (heap.setConstant ref name value).moduleName other = heap.moduleName other := by
  obtain ⟨constants, h⟩ := heap.module_setConstant ref name value other
  rw [moduleName, h]
  rfl

theorem retains_setConstant (heap : Heap) (ref : Ref .module) (name : String) (value : Value) :
    heap.Retains (heap.setConstant ref name value) where
  modules _ href := Arena.has_write.mpr href
  name other _ := heap.moduleName_setConstant ref name value other
  sort other _ := heap.isClass_setConstant ref name value other
  ancestors other _ := heap.ancestors_setConstant ref name value other
  objects _ href := ⟨href, rfl⟩

theorem Tree.congr {root : Ref .module} (h : heap.Tree root)
    (hsort : ∀ ref, later.isClass ref = heap.isClass ref)
    (hancestors : ∀ ref, (later.module ref).ancestors = (heap.module ref).ancestors) :
    later.Tree root := by
  have hunder : ∀ ref parent, later.IsUnder ref parent ↔ heap.IsUnder ref parent := by
    intro ref parent
    rw [IsUnder, IsUnder, Heap.superclass?, Heap.superclass?, hancestors]
  refine ⟨?_, ?_, ?_, ?_, ?_⟩
  · intro ref parent hlater
    rw [hancestors, hancestors]
    exact h.linked ref parent ((hunder ref parent).mp hlater)
  · rw [hsort]
    exact h.root_class
  · rw [Heap.superclass?, hancestors]
    exact h.root_top
  · intro ref parent hlater
    rw [hsort, hsort]
    exact h.classes ref parent ((hunder ref parent).mp hlater)
  · intro ref hclass
    rw [hsort] at hclass
    rw [inheritsFrom, hancestors]
    exact h.rooted ref hclass

theorem Tree.of_modules {root : Ref .module} (h : heap.Tree root)
    (hmodules : later.modules = heap.modules) : later.Tree root :=
  h.congr (isClass_of_modules hmodules)
    fun ref => congrArg Module.ancestors (module_of_modules hmodules ref)

theorem Tree.setConstant {root : Ref .module} (h : heap.Tree root) (ref : Ref .module)
    (name : String) (value : Value) : (heap.setConstant ref name value).Tree root :=
  h.congr (heap.isClass_setConstant ref name value) (heap.ancestors_setConstant ref name value)

theorem constant?_setConstant {ref : Ref .module} (h : heap.modules.Has ref) (name other : String)
    (value : Value) :
    (heap.setConstant ref name value).constant? ref other =
      if name = other then some value else heap.constant? ref other := by
  unfold constant?
  rw [module_setConstant_self h]
  exact Table.get?_insert _ name other value

theorem constant?_setConstant_of_ne {ref other : Ref .module} (h : ref ≠ other) (name : String)
    (value : Value) (n : String) :
    (heap.setConstant ref name value).constant? other n = heap.constant? other n := by
  unfold constant?
  rw [module_setConstant_of_ne h]

end Heap

end ExecutionContext
