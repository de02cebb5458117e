import ExecutionContext.Signal
import ExecutionContext.Value.Equality
import ExecutionContext.Value.Written
import Mathlib.Data.Finset.Card
import Mathlib.Data.List.Forall2
import Mathlib.Logic.Relation

/-! # Nested arrays

Writing a value and comparing values descend into arrays, and so they end exactly when
this descent does. Arrays are finite in number, so a descent that is longer than that
comes through one of them twice: then an array is reached from its own elements, and the
descent can be continued for ever. The bounds on the depth of nesting therefore never
cut off a text or a comparison that has an end.
-/

namespace ExecutionContext

/-! ## Texts of lists -/

section Mapping

variable {α β : Type} {f : α -> Option β} {items : List α} {parts : List β}

theorem mapM_eq_none_iff : items.mapM f = none ↔ ∃ item ∈ items, f item = none := by
  induction items with
  | nil => simp
  | cons item items ih =>
      rw [List.mapM_cons, List.exists_mem_cons_iff, ← ih]
      cases f item with
      | none => simp
      | some part => cases items.mapM f <;> simp

theorem mapM_eq_some_iff :
    items.mapM f = some parts ↔ List.Forall₂ (fun item part => f item = some part) items parts := by
  induction items generalizing parts with
  | nil => cases parts <;> simp
  | cons item items ih =>
      rw [List.mapM_cons]
      cases parts with
      | nil => cases hitem : f item <;> cases hrest : items.mapM f <;> simp
      | cons part parts =>
          rw [List.forall₂_cons, ← ih]
          cases hitem : f item <;> cases hrest : items.mapM f <;> simp

end Mapping

/-- A comparison is undecided only where one of a pair of elements is. -/
theorem exists_of_compareItems {eq : Value -> Value -> Option Bool} {as bs : List Value}
    (h : compareItems eq as bs = none) : ∃ a ∈ as, ∃ b ∈ bs, eq a b = none := by
  induction as generalizing bs with
  | nil => cases bs <;> cases h
  | cons a as ih =>
      cases bs with
      | nil => cases h
      | cons b bs =>
          rw [compareItems] at h
          cases hab : eq a b with
          | none => exact ⟨a, List.mem_cons_self, b, List.mem_cons_self, hab⟩
          | some answer =>
              rw [hab] at h
              cases answer with
              | false => cases h
              | true =>
                  obtain ⟨x, hx, y, hy, hxy⟩ := ih h
                  exact ⟨x, List.mem_cons_of_mem a hx, y, List.mem_cons_of_mem b hy, hxy⟩

/-- What was decided of the pairs decides the lists. -/
theorem compareItems_of_le {eq eq' : Value -> Value -> Option Bool} {as bs : List Value}
    {answer : Bool} (hle : ∀ a ∈ as, ∀ b answer, eq a b = some answer -> eq' a b = some answer)
    (h : compareItems eq as bs = some answer) : compareItems eq' as bs = some answer := by
  induction as generalizing bs with
  | nil => cases bs <;> exact h
  | cons a as ih =>
      cases bs with
      | nil => exact h
      | cons b bs =>
          rw [compareItems] at h ⊢
          cases hab : eq a b with
          | none =>
              rw [hab] at h
              cases h
          | some found =>
              rw [hab] at h
              rw [hle a List.mem_cons_self b found hab]
              cases found with
              | false => exact h
              | true => exact ih (fun x hx => hle x (List.mem_cons_of_mem a hx)) h

namespace Heap

variable {heap : Heap} {v w : Value} {ref : Ref .array} {depth : Nat}

/-! ## Containment -/

def Contains (heap : Heap) (v w : Value) : Prop :=
  ∃ items, heap.items? v = some items ∧ w ∈ items

/-- The value is the other one, or stands in it at any depth. -/
abbrev Reaches (heap : Heap) : Value -> Value -> Prop :=
  Relation.ReflTransGen heap.Contains

/-- The array can be reached from one of its own elements. -/
def Cyclic (heap : Heap) (v : Value) : Prop :=
  ∃ item, heap.Contains v item ∧ heap.Reaches item v

/-- A cyclic array can be reached from the value. -/
def Endless (heap : Heap) (v : Value) : Prop :=
  ∃ w, heap.Reaches v w ∧ heap.Cyclic w

def Acyclic (heap : Heap) : Prop :=
  ∀ v, ¬ heap.Cyclic v

theorem contains_array_iff : heap.Contains (.array ref) w ↔ w ∈ heap.arrays.read ref := by
  simp [Contains, items?]

theorem Contains.exists_ref (h : heap.Contains v w) : ∃ ref, v = .array ref := by
  obtain ⟨items, hitems, _⟩ := h
  cases v <;> first | exact ⟨_, rfl⟩ | cases hitems

theorem Contains.has (h : heap.Contains (.array ref) w) : heap.arrays.Has ref := by
  rw [contains_array_iff] at h
  by_contra hmissing
  have hread : heap.arrays.read ref = [] := by
    have hout : heap.arrays.cells.size ≤ ref.index := Nat.le_of_not_lt hmissing
    simp only [Arena.read, Array.getD_eq_getD_getElem?, Array.getElem?_eq_none hout]
    rfl
  rw [hread] at h
  cases h

theorem Acyclic.not_endless (h : heap.Acyclic) (v : Value) : ¬ heap.Endless v := by
  rintro ⟨w, _, hw⟩
  exact h w hw

/-! ## The depth of a descent -/

/-- One can go this many steps down from the value, and arrive at an array. -/
inductive Deep (heap : Heap) : Nat -> Value -> Prop where
  | array (ref : Ref .array) : Deep heap 0 (.array ref)
  | inside {depth : Nat} {v w : Value} :
      heap.Contains v w -> Deep heap depth w -> Deep heap (depth + 1) v

theorem Deep.exists_ref (h : heap.Deep depth v) : ∃ ref, v = .array ref := by
  cases h with
  | array ref => exact ⟨ref, rfl⟩
  | inside hcontains _ => exact hcontains.exists_ref

/-- Where a cyclic array can be reached, it can be reached from an element. -/
theorem Endless.exists_element (h : heap.Endless v) : ∃ w, heap.Contains v w ∧ heap.Endless w := by
  obtain ⟨w, hreach, hcyclic⟩ := h
  rcases hreach.cases_head with rfl | ⟨item, hcontains, hrest⟩
  · obtain ⟨item, hcontains, hback⟩ := hcyclic
    exact ⟨item, hcontains, v, hback, item, hcontains, hback⟩
  · exact ⟨item, hcontains, w, hrest, hcyclic⟩

theorem Endless.deep (h : heap.Endless v) (depth : Nat) : heap.Deep depth v := by
  induction depth generalizing v with
  | zero =>
      obtain ⟨w, hcontains, _⟩ := h.exists_element
      obtain ⟨ref, rfl⟩ := hcontains.exists_ref
      exact .array ref
  | succ depth ih =>
      obtain ⟨w, hcontains, hw⟩ := h.exists_element
      exact .inside hcontains (ih hw)

/-- Without a cycle each step down leaves an array behind for good. -/
theorem Deep.le_card (h : heap.Deep depth v) (hend : ¬ heap.Endless v) (below : Finset Nat)
    (hbelow : ∀ ref, heap.Reaches v (.array ref) -> heap.arrays.Has ref -> ref.index ∈ below) :
    depth ≤ below.card := by
  induction h generalizing below with
  | array ref => exact Nat.zero_le _
  | @inside depth v w hcontains hdeep ih =>
      obtain ⟨ref, rfl⟩ := hcontains.exists_ref
      have hmem : ref.index ∈ below := hbelow ref .refl hcontains.has
      have hrest : ∀ other, heap.Reaches w (.array other) -> heap.arrays.Has other ->
          other.index ∈ below.erase ref.index := by
        intro other hreach hhas
        refine Finset.mem_erase.mpr ⟨fun hsame => ?_, hbelow other (.head hcontains hreach) hhas⟩
        have hback : other = ref := by
          cases other
          cases ref
          cases hsame
          rfl
        rw [hback] at hreach
        exact hend ⟨_, .refl, w, hcontains, hreach⟩
      have hless := ih (fun ⟨u, hu, hcyclic⟩ => hend ⟨u, .head hcontains hu, hcyclic⟩) _ hrest
      have hcard := Finset.card_erase_of_mem hmem
      have hpos := Finset.card_pos.mpr ⟨_, hmem⟩
      omega

theorem Deep.le_size (h : heap.Deep depth v) (hend : ¬ heap.Endless v) :
    depth ≤ heap.arrays.size := by
  have hcard := h.le_card hend (Finset.range heap.arrays.size)
    fun _ _ hhas => Finset.mem_range.mpr hhas
  rwa [Finset.card_range] at hcard

/-- A descent that is deeper than there are arrays never ends. -/
theorem deep_iff (hdepth : heap.nestingDepth ≤ depth) : heap.Deep depth v ↔ heap.Endless v := by
  constructor
  · intro h
    by_contra hend
    have hle := h.le_size hend
    unfold nestingDepth at hdepth
    omega
  · exact fun h => h.deep depth

/-! ## Writing -/

/-- A text with arrays opened at most `depth` levels deep. Everything else is written as it is, and
the texts of elements are put together. -/
def writtenWithin (heap : Heap) (atom : Value -> String) (wrap : List String -> String) :
    Nat -> Value -> Option String
  | 0, .array _ => none
  | depth + 1, .array ref =>
      ((heap.arrays.read ref).mapM (heap.writtenWithin atom wrap depth)).map wrap
  | _, value => some (atom value)

section Writing

variable {atom : Value -> String} {wrap : List String -> String} {text : String}

theorem displayWithin_eq (heap : Heap) (depth : Nat) (v : Value) :
    heap.displayWithin depth v =
      heap.writtenWithin (fun v => (heap.displayWithin 0 v).getD "") Text.bracketed depth v := by
  induction depth generalizing v with
  | zero => cases v <;> rfl
  | succ depth ih =>
      cases v with
      | array ref =>
          rw [displayWithin, writtenWithin]
          exact congrArg _ (congrArg (List.mapM · _) (funext ih))
      | _ => rfl

theorem inspectWithin_eq (heap : Heap) (depth : Nat) (v : Value) :
    heap.inspectWithin depth v =
      heap.writtenWithin (fun v => (heap.inspectWithin 0 v).getD "")
        (fun parts => "Array(" ++ Text.bracketed parts ++ ")") depth v := by
  induction depth generalizing v with
  | zero => cases v <;> rfl
  | succ depth ih =>
      cases v with
      | array ref =>
          rw [inspectWithin, writtenWithin]
          exact congrArg _ (congrArg (List.mapM · _) (funext ih))
      | _ => rfl

theorem writtenWithin_eq_none_iff :
    heap.writtenWithin atom wrap depth v = none ↔ heap.Deep depth v := by
  induction depth generalizing v with
  | zero =>
      cases v with
      | array ref => exact ⟨fun _ => .array ref, fun _ => rfl⟩
      | _ => exact ⟨nofun, fun h => nomatch h.exists_ref⟩
  | succ depth ih =>
      cases v with
      | array ref =>
          rw [writtenWithin, Option.map_eq_none_iff, mapM_eq_none_iff]
          constructor
          · rintro ⟨item, hmem, hnone⟩
            exact .inside (contains_array_iff.mpr hmem) (ih.mp hnone)
          · rintro (_ | ⟨hcontains, hdeep⟩)
            exact ⟨_, contains_array_iff.mp hcontains, ih.mpr hdeep⟩
      | _ => exact ⟨nofun, fun h => nomatch h.exists_ref⟩

/-- A text that was found stays when arrays may be opened deeper. -/
theorem writtenWithin_succ (h : heap.writtenWithin atom wrap depth v = some text) :
    heap.writtenWithin atom wrap (depth + 1) v = some text := by
  induction depth generalizing v text with
  | zero =>
      cases v with
      | array ref => cases h
      | _ => exact h
  | succ depth ih =>
      cases v with
      | array ref =>
          rw [writtenWithin] at h ⊢
          obtain ⟨parts, hparts, htext⟩ := Option.map_eq_some_iff.mp h
          rw [mapM_eq_some_iff] at hparts
          rw [mapM_eq_some_iff.mpr (hparts.imp fun _ _ hpart => ih hpart), Option.map_some, htext]
      | _ => exact h

theorem writtenWithin_of_le {more : Nat} (hle : depth ≤ more)
    (h : heap.writtenWithin atom wrap depth v = some text) :
    heap.writtenWithin atom wrap more v = some text := by
  induction hle with
  | refl => exact h
  | step _ ih => exact writtenWithin_succ ih

/-- A text that is looked for to a bounded depth: it is missed exactly when no depth is enough, and
then a cyclic array can be reached. All depths that are enough give the same text. -/
structure WritesExactly (heap : Heap) (within : Nat -> Value -> Option String)
    (text? : Value -> Option String) : Prop where
  none_iff : ∀ v, text? v = none ↔ heap.Endless v
  ends_iff : ∀ v, (∃ depth text, within depth v = some text) ↔ ¬ heap.Endless v
  found : ∀ v depth text, within depth v = some text -> text? v = some text

theorem written_exactly (heap : Heap) (atom : Value -> String) (wrap : List String -> String) :
    heap.WritesExactly (heap.writtenWithin atom wrap)
      (heap.writtenWithin atom wrap heap.nestingDepth) := by
  have hnone : ∀ v, heap.writtenWithin atom wrap heap.nestingDepth v = none ↔ heap.Endless v :=
    fun v => writtenWithin_eq_none_iff.trans (deep_iff (Nat.le_refl _))
  have hends : ∀ v depth text, heap.writtenWithin atom wrap depth v = some text ->
      ¬ heap.Endless v := by
    intro v depth text htext hendless
    rw [writtenWithin_eq_none_iff.mpr (hendless.deep depth)] at htext
    cases htext
  have hfound : ∀ v, ¬ heap.Endless v ->
      ∃ text, heap.writtenWithin atom wrap heap.nestingDepth v = some text :=
    fun v hend => Option.ne_none_iff_exists'.mp ((hnone v).not.mpr hend)
  refine ⟨hnone, fun v => ⟨fun ⟨depth, text, htext⟩ => hends v depth text htext,
    fun hend => ⟨_, hfound v hend⟩⟩, fun v depth text htext => ?_⟩
  obtain ⟨other, hother⟩ := hfound v (hends v depth text htext)
  have hmore := writtenWithin_of_le (Nat.le_max_left depth heap.nestingDepth) htext
  have hsame := writtenWithin_of_le (Nat.le_max_right depth heap.nestingDepth) hother
  rw [hother, ← hsame, hmore]

theorem displayed_exactly (heap : Heap) : heap.WritesExactly heap.displayWithin heap.display? := by
  have hwithin : heap.displayWithin = _ :=
    funext fun depth => funext fun v => heap.displayWithin_eq depth v
  have htext : heap.display? = _ := funext fun v => heap.displayWithin_eq heap.nestingDepth v
  rw [hwithin, htext]
  exact heap.written_exactly _ _

theorem inspected_exactly (heap : Heap) : heap.WritesExactly heap.inspectWithin heap.inspect? := by
  have hwithin : heap.inspectWithin = _ :=
    funext fun depth => funext fun v => heap.inspectWithin_eq depth v
  have htext : heap.inspect? = _ := funext fun v => heap.inspectWithin_eq heap.nestingDepth v
  rw [hwithin, htext]
  exact heap.written_exactly _ _

end Writing

/-! ## Comparing -/

/-- Equality of values of which one is no array. -/
def comparedAtoms (heap : Heap) : Value -> Value -> Bool
  | .float x, .float y => x.equal y
  | .text s, .text t => decide (s = t) || decide (heap.texts.read s = heap.texts.read t)
  | a, b => decide (a = b)

/-- Equality of arrays when their elements compare as `inside` says. With the shortcut, an array
equals itself without a look at its elements. -/
def comparedArrays (heap : Heap) (shortcut : Bool) (a b : Ref .array) (inside : Option Bool) :
    Option Bool :=
  if shortcut = true ∧ a = b then some true
  else if (heap.arrays.read a).length ≠ (heap.arrays.read b).length then some false
  else inside

def comparedWithin (heap : Heap) (shortcut : Bool) : Nat -> Value -> Value -> Option Bool
  | 0, .array a, .array b => heap.comparedArrays shortcut a b none
  | depth + 1, .array a, .array b =>
      heap.comparedArrays shortcut a b
        (compareItems (heap.comparedWithin shortcut depth) (heap.arrays.read a) (heap.arrays.read b))
  | _, a, b => some (heap.comparedAtoms a b)

section Comparing

variable {shortcut : Bool} {a b : Value} {x y : Ref .array} {answer : Bool}
  {inside inside' : Option Bool}

/-- Two values that are not both arrays are compared without a look inside. -/
theorem comparedWithin_atoms (h : ¬ ∃ x y, a = .array x ∧ b = .array y) (shortcut : Bool)
    (depth : Nat) :
    heap.comparedWithin shortcut depth a b = some (heap.comparedAtoms a b) := by
  cases a with
  | array x =>
      cases b with
      | array y => exact absurd ⟨x, y, rfl, rfl⟩ h
      | _ => cases depth <;> rfl
  | _ => cases depth <;> rfl

/-- Induction along a comparison: from the elements of two arrays to the arrays. -/
@[elab_as_elim]
theorem compared_induction {motive : Nat -> Value -> Value -> Prop}
    (atoms : ∀ depth a b, (¬ ∃ x y, a = .array x ∧ b = .array y) -> motive depth a b)
    (unopened : ∀ x y, motive 0 (.array x) (.array y))
    (opened : ∀ depth x y, (∀ a b, motive depth a b) -> motive (depth + 1) (.array x) (.array y))
    (depth : Nat) (a b : Value) : motive depth a b := by
  induction depth generalizing a b with
  | zero =>
      by_cases h : ∃ x y, a = .array x ∧ b = .array y
      · obtain ⟨x, y, rfl, rfl⟩ := h
        exact unopened x y
      · exact atoms 0 a b h
  | succ depth ih =>
      by_cases h : ∃ x y, a = .array x ∧ b = .array y
      · obtain ⟨x, y, rfl, rfl⟩ := h
        exact opened depth x y ih
      · exact atoms (depth + 1) a b h

theorem comparedArrays_eq_none (h : heap.comparedArrays shortcut x y inside = none) :
    inside = none := by
  unfold comparedArrays at h
  split at h
  · cases h
  · split at h
    · cases h
    · exact h

theorem comparedArrays_of_le (hle : ∀ answer, inside = some answer -> inside' = some answer)
    (h : heap.comparedArrays shortcut x y inside = some answer) :
    heap.comparedArrays shortcut x y inside' = some answer := by
  unfold comparedArrays at h ⊢
  split at h
  · rw [if_pos ‹_›, h]
  · split at h
    · rw [if_neg ‹_›, if_pos ‹_›, h]
    · rw [if_neg ‹_›, if_neg ‹_›, hle answer h]

theorem equalWithin_eq (heap : Heap) (depth : Nat) (a b : Value) :
    heap.equalWithin depth a b = heap.comparedWithin true depth a b := by
  induction depth generalizing a b with
  | zero =>
      unfold equalWithin comparedWithin comparedArrays comparedAtoms
      cases a <;> cases b <;> simp
  | succ depth ih =>
      have hsame : heap.equalWithin depth = heap.comparedWithin true depth :=
        funext fun a => funext fun b => ih a b
      unfold equalWithin comparedWithin comparedArrays comparedAtoms
      cases a <;> cases b <;> simp [hsame]

/-- A comparison that was not decided has gone all the way down. -/
theorem deep_of_comparedWithin (h : heap.comparedWithin shortcut depth a b = none) :
    heap.Deep depth a := by
  induction depth, a, b using compared_induction with
  | atoms depth a b hatoms =>
      rw [comparedWithin_atoms hatoms] at h
      cases h
  | unopened x y => exact .array x
  | opened depth x y ih =>
      rw [comparedWithin] at h
      obtain ⟨item, hmem, other, _, hnone⟩ := exists_of_compareItems (comparedArrays_eq_none h)
      exact .inside (contains_array_iff.mpr hmem) (ih item other hnone)

/-- What was decided stays decided when arrays may be opened deeper. -/
theorem comparedWithin_succ (h : heap.comparedWithin shortcut depth a b = some answer) :
    heap.comparedWithin shortcut (depth + 1) a b = some answer := by
  induction depth, a, b using compared_induction generalizing answer with
  | atoms depth a b hatoms =>
      rw [comparedWithin_atoms hatoms] at h ⊢
      exact h
  | unopened x y =>
      have hunopened : heap.comparedArrays shortcut x y none = some answer := h
      refine comparedArrays_of_le ?_ hunopened
      nofun
  | opened depth x y ih =>
      rw [comparedWithin] at h ⊢
      refine comparedArrays_of_le (fun answer hinside => ?_) h
      exact compareItems_of_le (fun item _ other _ hfound => ih item other hfound) hinside

theorem comparedWithin_of_le {more : Nat} (hle : depth ≤ more)
    (h : heap.comparedWithin shortcut depth a b = some answer) :
    heap.comparedWithin shortcut more a b = some answer := by
  induction hle with
  | refl => exact h
  | step _ ih => exact comparedWithin_succ ih

/-- Every depth that texts may need is enough for comparisons. -/
theorem nestingDepth_le_comparisonDepth (heap : Heap) :
    heap.nestingDepth ≤ heap.comparisonDepth :=
  Nat.succ_le_succ (Nat.le_mul_self _)

/-- A comparison of a value from which no cyclic array can be reached is decided. -/
theorem exists_compared (hend : ¬ heap.Endless a) (shortcut : Bool) (b : Value) :
    ∃ answer, ∀ depth, heap.nestingDepth ≤ depth ->
      heap.comparedWithin shortcut depth a b = some answer := by
  cases hcompared : heap.comparedWithin shortcut heap.nestingDepth a b with
  | none =>
      have hdeep := deep_of_comparedWithin hcompared
      exact absurd ((deep_iff (Nat.le_refl _)).mp hdeep) hend
  | some answer => exact ⟨answer, fun _ hle => comparedWithin_of_le hle hcompared⟩

end Comparing

end Heap

end ExecutionContext
