import ExecutionContext.Module
import ExecutionContext.Proofs.Nesting

/-! # How arrays come to contain themselves

A new array is made of values that are there already, so it contains older arrays only
and lies on no cycle. Whatever is done with values, new arrays are all that it adds,
except for a push, which lets an old array contain a value that may be younger. A push
closes a cycle exactly when the array can be reached from the value pushed.
-/

namespace ExecutionContext

namespace Heap

variable {heap before mid after : Heap} {v w item : Value} {ref : Ref .array}

/-! ## New arrays -/

/-- The value is no array, or one that was made. -/
def Holds (heap : Heap) (v : Value) : Prop :=
  ∀ ref, v = .array ref -> heap.arrays.Has ref

instance (heap : Heap) (v : Value) : Decidable (heap.Holds v) :=
  match v with
  | .array ref =>
      decidable_of_iff (ref.index < heap.arrays.size)
        ⟨fun h _ heq => Value.array.inj heq ▸ h, fun h => h ref rfl⟩
  | .nil | .bool _ | .int _ | .float _ | .text _ | .object _ | .module _ => isTrue nofun

def Closed (heap : Heap) : Prop :=
  ∀ v w, heap.Contains v w -> heap.Holds w

/-- The arrays are what they were, but for new ones that contain earlier arrays only. -/
structure Extends (before after : Heap) : Prop where
  size_le : before.arrays.size ≤ after.arrays.size
  read_eq : ∀ {ref}, before.arrays.Has ref -> after.arrays.read ref = before.arrays.read ref
  earlier : ∀ {ref item : Ref .array}, ¬ before.arrays.Has ref ->
    after.Contains (.array ref) (.array item) -> item.index < ref.index

theorem not_contains_empty (v w : Value) : ¬ ({} : Heap).Contains v w := by
  intro h
  obtain ⟨ref, rfl⟩ := h.exists_ref
  exact Nat.not_lt_zero _ h.has

theorem closed_empty : ({} : Heap).Closed :=
  fun v w h => absurd h (not_contains_empty v w)

theorem acyclic_empty : ({} : Heap).Acyclic :=
  fun v ⟨w, h, _⟩ => not_contains_empty v w h

theorem Closed.toArgs (h : heap.Closed) (v : Value) : ∀ item ∈ heap.toArgs v, heap.Holds item := by
  intro item hmem
  unfold Heap.toArgs at hmem
  cases hitems : heap.items? v with
  | some items =>
      rw [hitems] at hmem
      exact h v item ⟨items, hitems, hmem⟩
  | none =>
      rw [hitems] at hmem
      rintro ref rfl
      have hself : .array ref = v := List.mem_singleton.mp hmem
      rw [← hself] at hitems
      cases hitems

theorem Closed.items {items : List Value} (h : heap.Closed) (hitems : heap.items? v = some items) :
    ∀ item ∈ items, heap.Holds item :=
  fun item hmem => h v item ⟨items, hitems, hmem⟩

theorem holds_of_not_array (h : ∀ ref, v ≠ .array ref) : heap.Holds v :=
  fun ref heq => absurd heq (h ref)

namespace Extends

theorem of_arrays_eq (h : after.arrays = before.arrays) : before.Extends after where
  size_le := Nat.le_of_eq (congrArg Arena.size h).symm
  read_eq _ := by rw [h]
  earlier hnew hcontains := by
    rw [← h] at hnew
    exact absurd hcontains.has hnew

theorem refl (heap : Heap) : heap.Extends heap :=
  of_arrays_eq rfl

theorem has (h : before.Extends after) (hhas : before.arrays.Has ref) : after.arrays.Has ref :=
  Nat.lt_of_lt_of_le hhas h.size_le

theorem contains_iff (h : before.Extends after) (hhas : before.arrays.Has ref) :
    after.Contains (.array ref) w ↔ before.Contains (.array ref) w := by
  rw [contains_array_iff, contains_array_iff, h.read_eq hhas]

theorem trans (h₁ : before.Extends mid) (h₂ : mid.Extends after) : before.Extends after where
  size_le := Nat.le_trans h₁.size_le h₂.size_le
  read_eq hhas := (h₂.read_eq (h₁.has hhas)).trans (h₁.read_eq hhas)
  earlier {ref _} hnew hcontains := by
    by_cases hmid : mid.arrays.Has ref
    · exact h₁.earlier hnew ((h₂.contains_iff hmid).mp hcontains)
    · exact h₂.earlier hmid hcontains

theorem contains (h : before.Extends after) (hcontains : before.Contains v w) :
    after.Contains v w := by
  obtain ⟨ref, rfl⟩ := hcontains.exists_ref
  exact (h.contains_iff hcontains.has).mpr hcontains

theorem holds (h : before.Extends after) (hv : before.Holds v) : after.Holds v :=
  fun ref heq => h.has (hv ref heq)

theorem closed (h : before.Extends after) (hclosed : before.Closed) : after.Closed := by
  rintro v w hcontains item rfl
  obtain ⟨ref, rfl⟩ := hcontains.exists_ref
  by_cases hold : before.arrays.Has ref
  · exact h.has (hclosed _ _ ((h.contains_iff hold).mp hcontains) item rfl)
  · exact Nat.lt_trans (h.earlier hold hcontains) hcontains.has

/-- From old values only old ones can be reached, and in the same way as before. -/
theorem reaches (h : before.Extends after) (hclosed : before.Closed) (hv : before.Holds v)
    (hreach : after.Reaches v w) : before.Reaches v w ∧ before.Holds w := by
  induction hreach with
  | refl => exact ⟨.refl, hv⟩
  | @tail u w _ hcontains ih =>
      obtain ⟨hold, hu⟩ := ih
      obtain ⟨ref, rfl⟩ := hcontains.exists_ref
      have hbefore := (h.contains_iff (hu ref rfl)).mp hcontains
      exact ⟨hold.tail hbefore, hclosed _ _ hbefore⟩

/-- From the elements of a new array only earlier arrays can be reached. -/
theorem index_lt (h : before.Extends after) (hclosed : before.Closed)
    (hnew : ¬ before.arrays.Has ref) (hitem : after.Contains (.array ref) item)
    (hreach : after.Reaches item w) : ∀ other, w = .array other -> other.index < ref.index := by
  induction hreach with
  | refl =>
      rintro other rfl
      exact h.earlier hnew hitem
  | @tail u w _ hcontains ih =>
      rintro other rfl
      obtain ⟨inner, rfl⟩ := hcontains.exists_ref
      by_cases hold : before.arrays.Has inner
      · have hother := hclosed _ _ ((h.contains_iff hold).mp hcontains) other rfl
        exact Nat.lt_of_lt_of_le hother (Nat.le_of_not_lt hnew)
      · exact Nat.lt_trans (h.earlier hold hcontains) (ih inner rfl)

/-- New arrays close no cycle. -/
theorem cyclic_iff (h : before.Extends after) (hclosed : before.Closed) :
    after.Cyclic v ↔ before.Cyclic v := by
  constructor
  · rintro ⟨item, hcontains, hreach⟩
    obtain ⟨ref, rfl⟩ := hcontains.exists_ref
    by_cases hold : before.arrays.Has ref
    · have hbefore := (h.contains_iff hold).mp hcontains
      exact ⟨item, hbefore, (h.reaches hclosed (hclosed _ _ hbefore) hreach).1⟩
    · exact absurd (h.index_lt hclosed hold hcontains hreach ref rfl) (Nat.lt_irrefl _)
  · rintro ⟨item, hcontains, hreach⟩
    exact ⟨item, h.contains hcontains, Relation.ReflTransGen.mono (fun _ _ => h.contains) _ _ hreach⟩

theorem acyclic_iff (h : before.Extends after) (hclosed : before.Closed) :
    after.Acyclic ↔ before.Acyclic :=
  forall_congr' fun _ => not_congr (h.cyclic_iff hclosed)

end Extends

/-! ## Making values -/

theorem extends_newArray {items : List Value} (h : ∀ item ∈ items, heap.Holds item) :
    heap.Extends (heap.newArray items).2 where
  size_le := by
    show _ ≤ (heap.arrays.alloc items).2.size
    rw [Arena.size_alloc]
    exact Nat.le_succ _
  read_eq hhas := Arena.read_alloc_of_has hhas items
  earlier {ref item} hnew hcontains := by
    have hself : ref = (heap.arrays.alloc items).1 := by
      have hhas : (heap.arrays.alloc items).2.Has ref := hcontains.has
      rw [Arena.Has, Arena.size_alloc] at hhas
      have hindex : ref.index = heap.arrays.size :=
        Nat.le_antisymm (Nat.le_of_lt_succ hhas) (Nat.le_of_not_lt hnew)
      cases ref
      cases hindex
      rfl
    have hmem : .array item ∈ (heap.arrays.alloc items).2.read ref := contains_array_iff.mp hcontains
    rw [hself, Arena.read_alloc_self] at hmem
    rw [hself]
    exact h _ hmem item rfl

theorem arrays_newTexts (heap : Heap) (texts : List String) :
    (heap.newTexts texts).2.arrays = heap.arrays := by
  induction texts generalizing heap with
  | nil => rfl
  | cons text texts ih => exact ih (heap.newText text).2

theorem not_array_of_mem_newTexts {texts : List String} (h : v ∈ (heap.newTexts texts).1)
    (ref : Ref .array) : v ≠ .array ref := by
  induction texts generalizing heap with
  | nil => cases h
  | cons text texts ih =>
      rcases List.mem_cons.mp h with rfl | hrest
      · exact nofun
      · exact ih hrest

/-- What is done with values other than by a push. -/
inductive Edit where
  | newText (text : String)
  | newTexts (texts : List String)
  | newArray (items : List Value)
  | newObject (cls : Ref .module)
  | fromArgs (args : List Value)
  | newClass (name : String) (superclass : Option (Ref .module))
  | newModule (name : String)
  | rename (module : Ref .module) (name : String)
  | setConstant (module : Ref .module) (name : String) (value : Value)

def Edit.apply (heap : Heap) : Edit -> Heap
  | .newText text => (heap.newText text).2
  | .newTexts texts => (heap.newTexts texts).2
  | .newArray items => (heap.newArray items).2
  | .newObject cls => (heap.newObject cls).2
  | .fromArgs args => (heap.fromArgs args).2
  | .newClass name superclass => (heap.newClass name superclass).2
  | .newModule name => (heap.newModule name).2
  | .rename module name => heap.rename module name
  | .setConstant module name value => heap.setConstant module name value

def Edit.items : Edit -> List Value
  | .newArray items => items
  | .fromArgs args => args
  | _ => []

theorem extends_fromArgs {args : List Value} (h : ∀ arg ∈ args, heap.Holds arg) :
    heap.Extends (heap.fromArgs args).2 := by
  unfold Heap.fromArgs
  split
  · exact .refl heap
  · exact extends_newArray h

theorem Edit.extends {edit : Edit} (h : ∀ item ∈ edit.items, heap.Holds item) :
    heap.Extends (edit.apply heap) := by
  cases edit with
  | newArray items => exact extends_newArray h
  | fromArgs args => exact extends_fromArgs h
  | newTexts texts => exact .of_arrays_eq (arrays_newTexts heap texts)
  -- Texts, objects and modules are kept in cells of their own.
  | _ => exact .of_arrays_eq rfl

/-! ## Pushing -/

def pushed (heap : Heap) (ref : Ref .array) (item : Value) : Heap :=
  (heap.arrayPush (.array ref) item).2

section Pushing

variable (hhas : heap.arrays.Has ref)
include hhas

theorem contains_pushed_iff :
    (heap.pushed ref item).Contains v w ↔ heap.Contains v w ∨ v = .array ref ∧ w = item := by
  have hread : ∀ other, (heap.pushed ref item).arrays.read other =
      if other = ref then heap.arrays.read other ++ [item] else heap.arrays.read other := by
    intro other
    show (heap.arrays.write ref _).read other = _
    by_cases hother : other = ref
    · rw [hother, if_pos rfl, Arena.read_write_self hhas]
    · rw [if_neg hother, Arena.read_write_of_ne _ (Ne.symm hother)]
  constructor
  · intro h
    obtain ⟨other, rfl⟩ := h.exists_ref
    rw [contains_array_iff, hread] at h
    rw [contains_array_iff]
    by_cases hother : other = ref
    · rw [if_pos hother, List.mem_append, List.mem_singleton] at h
      exact h.imp_right fun hw => ⟨congrArg Value.array hother, hw⟩
    · rw [if_neg hother] at h
      exact Or.inl h
  · rintro (h | ⟨rfl, rfl⟩)
    · obtain ⟨other, rfl⟩ := h.exists_ref
      rw [contains_array_iff] at h
      rw [contains_array_iff, hread]
      split
      · exact List.mem_append_left _ h
      · exact h
    · rw [contains_array_iff, hread, if_pos rfl]
      exact List.mem_append_right _ (List.mem_singleton_self w)

theorem Reaches.pushed (item : Value) (h : heap.Reaches v w) : (heap.pushed ref item).Reaches v w :=
  Relation.ReflTransGen.mono
    (fun _ _ hcontains => (contains_pushed_iff hhas).mpr (Or.inl hcontains)) _ _ h

/-- What can be reached after a push can be reached without it, or by way of it. -/
theorem Reaches.of_pushed (h : (heap.pushed ref item).Reaches v w) :
    heap.Reaches v w ∨ heap.Reaches v (.array ref) ∧ heap.Reaches item w := by
  induction h with
  | refl => exact Or.inl .refl
  | tail _ hcontains ih =>
      rcases (contains_pushed_iff hhas).mp hcontains with hold | ⟨rfl, rfl⟩
      · exact ih.imp (·.tail hold) fun ⟨hthere, hrest⟩ => ⟨hthere, hrest.tail hold⟩
      · exact Or.inr ⟨ih.elim id And.left, .refl⟩

/-- A push closes a cycle exactly when the array can be reached from what is pushed. -/
theorem cyclic_pushed_iff :
    (∃ v, (heap.pushed ref item).Cyclic v) ↔
      (∃ v, heap.Cyclic v) ∨ heap.Reaches item (.array ref) := by
  constructor
  · rintro ⟨v, u, hcontains, hreach⟩
    have hback := Reaches.of_pushed hhas hreach
    rcases (contains_pushed_iff hhas).mp hcontains with hold | ⟨rfl, rfl⟩
    · rcases hback with hdown | ⟨hthere, hrest⟩
      · exact Or.inl ⟨v, u, hold, hdown⟩
      -- The way down from the item comes to the array, and from there back into the item.
      · exact Or.inr ((hrest.tail hold).trans hthere)
    · exact Or.inr (hback.elim id And.left)
  · rintro (⟨v, u, hcontains, hreach⟩ | hreach)
    · exact ⟨v, u, (contains_pushed_iff hhas).mpr (Or.inl hcontains), hreach.pushed hhas item⟩
    · exact ⟨.array ref, item, (contains_pushed_iff hhas).mpr (Or.inr ⟨rfl, rfl⟩),
        hreach.pushed hhas item⟩

theorem closed_pushed (hclosed : heap.Closed) (hitem : heap.Holds item) :
    (heap.pushed ref item).Closed := by
  rintro v w hcontains other rfl
  show (heap.arrays.write ref _).Has other
  rw [Arena.has_write]
  rcases (contains_pushed_iff hhas).mp hcontains with hold | ⟨_, hw⟩
  · exact hclosed _ _ hold other rfl
  · exact hitem other hw.symm

end Pushing

/-! ## Sequences of changes -/

/-- One change of the values: new arrays, or a push of a value onto an array if pushes are allowed.
-/
inductive Step (pushing : Prop) (before : Heap) : Heap -> Prop where
  | extend {after : Heap} : before.Extends after -> Step pushing before after
  | push {ref : Ref .array} {item : Value} : pushing -> before.arrays.Has ref ->
      before.Holds item -> Step pushing before (before.pushed ref item)

abbrev Evolves (pushing : Prop) : Heap -> Heap -> Prop :=
  Relation.ReflTransGen (Step pushing)

variable {pushing : Prop}

theorem Step.closed (h : before.Step pushing after) (hclosed : before.Closed) : after.Closed := by
  cases h with
  | extend hextends => exact hextends.closed hclosed
  | push _ hhas hitem => exact closed_pushed hhas hclosed hitem

theorem Step.holds (h : before.Step pushing after) (hv : before.Holds v) : after.Holds v := by
  cases h with
  | extend hextends => exact hextends.holds hv
  | push _ hhas hitem => exact fun ref heq => Arena.has_write.mpr (hv ref heq)

namespace Evolves

theorem closed (h : before.Evolves pushing after) (hclosed : before.Closed) : after.Closed := by
  induction h with
  | refl => exact hclosed
  | tail _ hstep ih => exact hstep.closed ih

theorem holds (h : before.Evolves pushing after) (hv : before.Holds v) : after.Holds v := by
  induction h with
  | refl => exact hv
  | tail _ hstep ih => exact hstep.holds ih

theorem of_extends (h : before.Extends after) : before.Evolves pushing after :=
  .single (.extend h)

theorem of_push (target : Value) (hpushing : pushing) (htarget : before.Holds target)
    (hitem : before.Holds item) : before.Evolves pushing (before.arrayPush target item).2 := by
  cases target with
  | array ref => exact .single (.push hpushing (htarget ref rfl) hitem)
  | _ => exact .refl

/-- Without pushes all that happens is that new arrays are made. -/
theorem toExtends (h : before.Evolves False after) : before.Extends after := by
  induction h with
  | refl => exact .refl before
  | tail _ hstep ih =>
      cases hstep with
      | extend hextends => exact ih.trans hextends
      | push hpushing => exact hpushing.elim

/-- The first cycle is closed by a push of a value from which the array could be reached. -/
theorem exists_push (h : before.Evolves pushing after) (hclosed : before.Closed)
    (hbefore : before.Acyclic) (hafter : ¬ after.Acyclic) :
    ∃ mid ref item, before.Evolves pushing mid ∧ mid.Acyclic ∧ mid.arrays.Has ref ∧
      mid.Reaches item (.array ref) ∧ (mid.pushed ref item).Evolves pushing after := by
  induction h with
  | refl => exact absurd hbefore hafter
  | @tail mid after hrun hstep ih =>
      by_cases hmid : mid.Acyclic
      · cases hstep with
        | extend hextends =>
            exact absurd ((hextends.acyclic_iff (Evolves.closed hrun hclosed)).mpr hmid) hafter
        | @push ref item _ hhas _ =>
            have hcyclic : ∃ v, (mid.pushed ref item).Cyclic v := by
              by_contra hnone
              exact hafter fun v hv => hnone ⟨v, hv⟩
            rcases (cyclic_pushed_iff hhas).mp hcyclic with ⟨v, hv⟩ | hreach
            · exact absurd hv (hmid v)
            · exact ⟨mid, ref, item, hrun, hmid, hhas, hreach, .refl⟩
      · obtain ⟨early, ref, item, hfirst, hacyclic, hhas, hreach, hrest⟩ := ih hmid
        exact ⟨early, ref, item, hfirst, hacyclic, hhas, hreach, hrest.tail hstep⟩

end Evolves

end Heap

end ExecutionContext
