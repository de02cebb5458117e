import ExecutionContext.Proofs.HeapRuns

/-! # The laws of equality

Equality is symmetric and transitive on all values, those that hold a NaN included, and at
every depth that a comparison may be cut off at. It is not reflexive on a NaN, and there
the shortcut shows: an array that holds a NaN equals itself, since it is not looked into,
and does not equal a copy of itself. Without a NaN the shortcut makes no difference, so
that it does not matter which arrays two values share.
-/

namespace ExecutionContext

theorem Binary64.equal_trans {x y z : Binary64} (hxy : x.equal y = true)
    (hyz : y.equal z = true) : x.equal z = true := by
  simp only [equal, Bool.and_eq_true, Bool.or_eq_true, decide_eq_true_eq] at *
  obtain ⟨⟨hx, _⟩, hsame⟩ := hxy
  obtain ⟨⟨_, hz⟩, hsame'⟩ := hyz
  refine ⟨⟨hx, hz⟩, ?_⟩
  rcases hsame with rfl | ⟨hzero, _⟩
  · exact hsame'
  · rcases hsame' with rfl | ⟨_, hzero'⟩
    · exact Or.inr ⟨hzero, ‹_›⟩
    · exact Or.inr ⟨hzero, hzero'⟩

def Value.isNaN : Value -> Bool
  | .float x => x.isNaN
  | _ => false

theorem Value.same_equivalence : Equivalence fun a b : Value => a.same b = true := by
  have hsame : (fun a b : Value => a.same b = true) = Eq :=
    funext fun a => funext fun b => propext same_iff
  rw [hsame]
  exact eq_equivalence

/-! ## Comparing lists -/

section Items

variable {eq : Value -> Value -> Option Bool} {as bs cs : List Value}

theorem compareItems_comm (h : ∀ a b, eq a b = eq b a) (as bs : List Value) :
    compareItems eq as bs = compareItems eq bs as := by
  induction as generalizing bs with
  | nil => cases bs <;> rfl
  | cons a as ih =>
      cases bs with
      | nil => rfl
      | cons b bs => rw [compareItems, compareItems, h a b, ih bs]

theorem compareItems_eq_true_iff :
    compareItems eq as bs = some true ↔ List.Forall₂ (fun a b => eq a b = some true) as bs := by
  induction as generalizing bs with
  | nil => cases bs <;> simp [compareItems]
  | cons a as ih =>
      cases bs with
      | nil => simp [compareItems]
      | cons b bs =>
          rw [List.forall₂_cons, compareItems, ← ih]
          cases hab : eq a b with
          | none => simp
          | some answer => cases answer <;> simp

/-- A list does not differ from itself, if no element does. -/
theorem compareItems_self_ne_false (h : ∀ a ∈ as, eq a a ≠ some false) :
    compareItems eq as as ≠ some false := by
  induction as with
  | nil => exact nofun
  | cons a as ih =>
      have hrest := ih fun item hmem => h item (List.mem_cons_of_mem a hmem)
      rw [compareItems]
      cases haa : eq a a with
      | none => simp
      | some answer =>
          cases answer with
          | true => exact hrest
          | false => exact absurd haa (h a List.mem_cons_self)

theorem forall₂_trans {r : Value -> Value -> Prop} (htrans : ∀ a b c, r a b -> r b c -> r a c)
    (hab : List.Forall₂ r as bs) (hbc : List.Forall₂ r bs cs) : List.Forall₂ r as cs := by
  induction hab generalizing cs with
  | nil =>
      cases hbc
      exact .nil
  | cons hhead _ ih =>
      cases hbc with
      | cons hhead' hrest' => exact .cons (htrans _ _ _ hhead hhead') (ih hrest')

end Items

namespace Heap

variable {heap : Heap} {a b c : Value} {x y : Ref .array} {depth : Nat} {shortcut answer : Bool}
  {inside : Option Bool}

/-! ## Values of which one is no array -/

theorem comparedAtoms_comm (heap : Heap) (a b : Value) :
    heap.comparedAtoms a b = heap.comparedAtoms b a := by
  unfold comparedAtoms
  cases a <;> cases b <;> simp [Binary64.equal_comm, eq_comm]

theorem comparedAtoms_self (heap : Heap) (a : Value) : heap.comparedAtoms a a = !a.isNaN := by
  cases a <;> simp [comparedAtoms, Value.isNaN, Binary64.equal_self]

/-- Values that are equal are the same, or equal numbers, or texts of equal content. -/
theorem comparedAtoms_cases (h : heap.comparedAtoms a b = true) :
    a = b ∨ (∃ x y, a = .float x ∧ b = .float y ∧ x.equal y = true) ∨
      ∃ s t, a = .text s ∧ b = .text t ∧ heap.texts.read s = heap.texts.read t := by
  unfold comparedAtoms at h
  split at h
  · exact Or.inr (Or.inl ⟨_, _, rfl, rfl, h⟩)
  · rename_i s t
    rcases (Bool.or_eq_true _ _).mp h with hsame | hread
    · exact Or.inl (congrArg Value.text (of_decide_eq_true hsame))
    · exact Or.inr (Or.inr ⟨s, t, rfl, rfl, of_decide_eq_true hread⟩)
  · exact Or.inl (of_decide_eq_true h)

theorem comparedAtoms_trans (hab : heap.comparedAtoms a b = true)
    (hbc : heap.comparedAtoms b c = true) : heap.comparedAtoms a c = true := by
  rcases comparedAtoms_cases hab with rfl | ⟨x, y, rfl, rfl, hxy⟩ | ⟨s, t, rfl, rfl, hst⟩
  · exact hbc
  · rcases comparedAtoms_cases hbc with rfl | ⟨_, z, hy, rfl, hyz⟩ | ⟨_, _, hy, _⟩
    · exact hab
    · cases hy
      exact Binary64.equal_trans hxy hyz
    · cases hy
  · rcases comparedAtoms_cases hbc with rfl | ⟨_, _, ht, _⟩ | ⟨_, u, ht, rfl, htu⟩
    · exact hab
    · cases ht
    · cases ht
      simp [comparedAtoms, hst.trans htu]

theorem compared_self_atoms (ha : ¬ ∃ x, a = .array x) (shortcut : Bool) (depth : Nat) :
    heap.comparedWithin shortcut depth a a = some (!a.isNaN) := by
  rw [comparedWithin_atoms fun ⟨x, _, hx, _⟩ => ha ⟨x, hx⟩, comparedAtoms_self]

theorem exists_ref_of_compared (h : heap.comparedWithin shortcut depth (.array x) b = some true) :
    ∃ y, b = .array y := by
  by_contra hatom
  rw [comparedWithin_atoms fun ⟨_, y, _, hb⟩ => hatom ⟨y, hb⟩, Option.some_inj] at h
  rcases comparedAtoms_cases h with rfl | ⟨_, _, hx, _⟩ | ⟨_, _, hx, _⟩
  · exact hatom ⟨x, rfl⟩
  · cases hx
  · cases hx

/-! ## Symmetry and transitivity -/

theorem comparedArrays_comm (heap : Heap) (shortcut : Bool) (x y : Ref .array)
    (inside : Option Bool) :
    heap.comparedArrays shortcut x y inside = heap.comparedArrays shortcut y x inside := by
  simp only [comparedArrays, eq_comm (a := x), ne_comm (a := (heap.arrays.read x).length)]

/-- Equality is symmetric, on all heaps and where it is cut off as well. -/
theorem comparedWithin_comm (heap : Heap) (shortcut : Bool) (depth : Nat) (a b : Value) :
    heap.comparedWithin shortcut depth a b = heap.comparedWithin shortcut depth b a := by
  induction depth, a, b using compared_induction with
  | atoms depth a b h =>
      rw [comparedWithin_atoms h, comparedAtoms_comm,
        comparedWithin_atoms fun ⟨y, x, hb, ha⟩ => h ⟨x, y, ha, hb⟩]
  | unopened x y => exact heap.comparedArrays_comm shortcut x y none
  | opened depth x y ih =>
      rw [comparedWithin, comparedWithin, comparedArrays_comm, compareItems_comm ih]

theorem comparedArrays_eq_true_iff :
    heap.comparedArrays shortcut x y inside = some true ↔
      (shortcut = true ∧ x = y) ∨
        (heap.arrays.read x).length = (heap.arrays.read y).length ∧ inside = some true := by
  unfold comparedArrays
  by_cases hsame : shortcut = true ∧ x = y
  · simp [hsame]
  · by_cases hlength : (heap.arrays.read x).length = (heap.arrays.read y).length
    · simp [hsame, hlength]
    · simp [hsame, hlength]

/-- Arrays are equal when they are the same, by the shortcut, or have equal elements. -/
theorem compared_arrays_succ_iff :
    heap.comparedWithin shortcut (depth + 1) (.array x) (.array y) = some true ↔
      (shortcut = true ∧ x = y) ∨
        List.Forall₂ (fun a b => heap.comparedWithin shortcut depth a b = some true)
          (heap.arrays.read x) (heap.arrays.read y) := by
  rw [comparedWithin, comparedArrays_eq_true_iff, compareItems_eq_true_iff]
  exact or_congr_right ⟨And.right, fun h => ⟨h.length_eq, h⟩⟩

theorem compared_arrays_zero_iff :
    heap.comparedWithin shortcut 0 (.array x) (.array y) = some true ↔ shortcut = true ∧ x = y := by
  rw [comparedWithin, comparedArrays_eq_true_iff]
  simp

/-- Equality is transitive, on all heaps and where it is cut off as well. -/
theorem comparedWithin_trans (hab : heap.comparedWithin shortcut depth a b = some true)
    (hbc : heap.comparedWithin shortcut depth b c = some true) :
    heap.comparedWithin shortcut depth a c = some true := by
  induction depth, a, b using compared_induction generalizing c with
  | atoms depth a b h =>
      have ha : ¬ ∃ x, a = .array x := by
        rintro ⟨x, rfl⟩
        obtain ⟨y, rfl⟩ := exists_ref_of_compared hab
        exact h ⟨x, y, rfl, rfl⟩
      have hb : ¬ ∃ y, b = .array y := by
        rintro ⟨y, rfl⟩
        rw [comparedWithin_comm] at hab
        exact ha (exists_ref_of_compared hab)
      rw [comparedWithin_atoms fun ⟨x, _, hx, _⟩ => ha ⟨x, hx⟩, Option.some_inj] at hab ⊢
      rw [comparedWithin_atoms fun ⟨y, _, hy, _⟩ => hb ⟨y, hy⟩, Option.some_inj] at hbc
      exact comparedAtoms_trans hab hbc
  | unopened x y =>
      obtain ⟨z, rfl⟩ := exists_ref_of_compared hbc
      rw [compared_arrays_zero_iff] at hab hbc ⊢
      exact ⟨hab.1, hab.2.trans hbc.2⟩
  | opened depth x y ih =>
      obtain ⟨z, rfl⟩ := exists_ref_of_compared hbc
      rw [compared_arrays_succ_iff] at hab hbc ⊢
      -- Where one comparison takes the shortcut, the other one is the one asked for.
      rcases hab with ⟨_, rfl⟩ | hitems
      · exact hbc
      · rcases hbc with ⟨_, rfl⟩ | hitems'
        · exact Or.inr hitems
        · exact Or.inr (forall₂_trans (fun a b c => ih a b) hitems hitems')

/-! ## Values without a NaN -/

/-- Neither the value nor anything that can be reached from it is a NaN. -/
def NanFree (heap : Heap) (v : Value) : Prop :=
  ∀ w, heap.Reaches v w -> w.isNaN = false

theorem NanFree.element (h : heap.NanFree a) (hcontains : heap.Contains a b) : heap.NanFree b :=
  fun w hreach => h w (.head hcontains hreach)

/-- A value has no NaN if it is one of some values that are none and contain each other only. -/
theorem NanFree.of_closed {values : List Value} (ha : a ∈ values)
    (hclosed : ∀ v ∈ values, ∀ w ∈ (heap.items? v).getD [], w ∈ values)
    (hnan : ∀ v ∈ values, v.isNaN = false) : heap.NanFree a := by
  intro w hreach
  have hmem : w ∈ values := by
    induction hreach with
    | refl => exact ha
    | tail _ hcontains ih =>
        obtain ⟨items, hitems, hitem⟩ := hcontains
        refine hclosed _ ih _ ?_
        rw [hitems]
        exact hitem
  exact hnan w hmem

/-- With the shortcut, only a NaN does not equal itself. -/
theorem compared_self (heap : Heap) (depth : Nat) (a : Value) :
    heap.comparedWithin true depth a a = some (!a.isNaN) := by
  by_cases ha : ∃ x, a = .array x
  · obtain ⟨x, rfl⟩ := ha
    cases depth with
    | zero => exact compared_arrays_zero_iff.mpr ⟨rfl, rfl⟩
    | succ depth => exact compared_arrays_succ_iff.mpr (Or.inl ⟨rfl, rfl⟩)
  · exact compared_self_atoms ha true depth

/-- Without a NaN, a look at the elements finds no difference between a value and itself. -/
theorem NanFree.compared_self_ne_false (h : heap.NanFree a) :
    heap.comparedWithin false depth a a ≠ some false := by
  induction depth generalizing a with
  | zero =>
      by_cases ha : ∃ x, a = .array x
      · obtain ⟨x, rfl⟩ := ha
        simp [comparedWithin, comparedArrays]
      · rw [compared_self_atoms ha, h a .refl]
        simp
  | succ depth ih =>
      by_cases ha : ∃ x, a = .array x
      · obtain ⟨x, rfl⟩ := ha
        have hitems : compareItems (heap.comparedWithin false depth) (heap.arrays.read x)
            (heap.arrays.read x) ≠ some false :=
          compareItems_self_ne_false fun item hmem => ih (h.element (contains_array_iff.mpr hmem))
        simpa [comparedWithin, comparedArrays] using hitems
      · rw [compared_self_atoms ha, h a .refl]
        simp

theorem comparedArrays_of_ne (h : x ≠ y) (inside : Option Bool) :
    heap.comparedArrays true x y inside = heap.comparedArrays false x y inside := by
  simp [comparedArrays, h]

theorem NanFree.compared_self_shortcut (h : heap.NanFree a)
    (hplain : heap.comparedWithin false depth a a = some answer) :
    heap.comparedWithin true depth a a = some answer := by
  rw [compared_self, h a .refl]
  cases answer with
  | true => rfl
  | false => exact absurd hplain h.compared_self_ne_false

/-- Without a NaN, what a look at the elements decides is what is decided with the shortcut. -/
theorem NanFree.compared_shortcut (h : heap.NanFree a)
    (hplain : heap.comparedWithin false depth a b = some answer) :
    heap.comparedWithin true depth a b = some answer := by
  induction depth, a, b using compared_induction generalizing answer with
  | atoms depth a b hatoms =>
      rw [comparedWithin_atoms hatoms] at hplain ⊢
      exact hplain
  | unopened x y =>
      by_cases hsame : x = y
      · subst hsame
        exact h.compared_self_shortcut hplain
      · rw [comparedWithin] at hplain ⊢
        rw [comparedArrays_of_ne hsame, hplain]
  | opened depth x y ih =>
      by_cases hsame : x = y
      · subst hsame
        exact h.compared_self_shortcut hplain
      · rw [comparedWithin] at hplain ⊢
        rw [comparedArrays_of_ne hsame]
        refine comparedArrays_of_le (fun answer => compareItems_of_le ?_) hplain
        intro item hmem other answer hitem
        exact ih item other (h.element (contains_array_iff.mpr hmem)) hitem

/-! ## Where comparisons end -/

def Equal (heap : Heap) (a b : Value) : Prop :=
  heap.equal? a b = some true

/-- Equality of values where all arrays are compared element by element. -/
def plain? (heap : Heap) (a b : Value) : Option Bool :=
  heap.comparedWithin false heap.comparisonDepth a b

def Plain (heap : Heap) (a b : Value) : Prop :=
  heap.plain? a b = some true

theorem equal?_eq (heap : Heap) :
    heap.equal? = heap.comparedWithin true heap.comparisonDepth :=
  funext fun a => funext fun b => heap.equalWithin_eq heap.comparisonDepth a b

theorem equal_iff : heap.Equal a b ↔
    heap.comparedWithin true heap.comparisonDepth a b = some true := by
  rw [Equal, equal?_eq]

theorem equal?_comm (heap : Heap) (a b : Value) : heap.equal? a b = heap.equal? b a := by
  rw [equal?_eq, comparedWithin_comm]

theorem plain?_comm (heap : Heap) (a b : Value) : heap.plain? a b = heap.plain? b a :=
  heap.comparedWithin_comm false heap.comparisonDepth a b

theorem Equal.symm (h : heap.Equal a b) : heap.Equal b a := by
  rwa [Equal, equal?_comm]

theorem Equal.trans (hab : heap.Equal a b) (hbc : heap.Equal b c) : heap.Equal a c := by
  rw [equal_iff] at hab hbc ⊢
  exact comparedWithin_trans hab hbc

theorem equal_self_iff : heap.Equal a a ↔ a.isNaN = false := by
  rw [equal_iff, compared_self]
  simp

/-- Where there is an end, elements are compared to the same depth as their arrays. -/
theorem compared_arrays_iff (hend : ¬ heap.Endless (.array x)) (hdepth : heap.nestingDepth ≤ depth)
    (shortcut : Bool) (y : Ref .array) :
    heap.comparedWithin shortcut depth (.array x) (.array y) = some true ↔
      (shortcut = true ∧ x = y) ∨
        List.Forall₂ (fun a b => heap.comparedWithin shortcut depth a b = some true)
          (heap.arrays.read x) (heap.arrays.read y) := by
  obtain ⟨answer, hanswer⟩ := exists_compared hend shortcut (.array y)
  rw [hanswer depth hdepth, ← hanswer (depth + 1) (Nat.le_succ_of_le hdepth),
    compared_arrays_succ_iff]

theorem equal_arrays_iff (hacyclic : heap.Acyclic) :
    heap.Equal (.array x) (.array y) ↔
      x = y ∨ List.Forall₂ heap.Equal (heap.arrays.read x) (heap.arrays.read y) := by
  have hequal : heap.Equal = fun a b =>
      heap.comparedWithin true heap.comparisonDepth a b = some true :=
    funext fun a => funext fun b => propext equal_iff
  have hiff := compared_arrays_iff (hacyclic.not_endless (.array x))
    heap.nestingDepth_le_comparisonDepth
  rw [hequal]
  exact (hiff true y).trans (or_congr_left (and_iff_right rfl))

theorem plain_arrays_iff (hacyclic : heap.Acyclic) :
    heap.Plain (.array x) (.array y) ↔
      List.Forall₂ heap.Plain (heap.arrays.read x) (heap.arrays.read y) := by
  have hiff := compared_arrays_iff (hacyclic.not_endless (.array x))
    heap.nestingDepth_le_comparisonDepth
  exact (hiff false y).trans (or_iff_right fun h => nomatch h.1)

/-- Without a NaN the shortcut makes no difference. -/
theorem NanFree.equal_plain (hacyclic : heap.Acyclic) (h : heap.NanFree a ∨ heap.NanFree b) :
    heap.equal? a b = heap.plain? a b := by
  have hleft : ∀ {a} b, heap.NanFree a -> heap.equal? a b = heap.plain? a b := by
    intro a b h
    obtain ⟨answer, hanswer⟩ := exists_compared (hacyclic.not_endless a) false b
    have hplain := hanswer _ heap.nestingDepth_le_comparisonDepth
    rw [plain?, hplain, equal?_eq, h.compared_shortcut hplain]
  rcases h with ha | hb
  · exact hleft b ha
  · have hflip := hleft a hb
    rw [equal?_eq, plain?] at hflip ⊢
    rw [comparedWithin_comm, hflip, comparedWithin_comm]

/-- A look at all elements finds every value equal to itself but for those that hold a NaN. -/
theorem plain_self_iff (hacyclic : heap.Acyclic) : heap.Plain a a ↔ heap.NanFree a := by
  constructor
  · intro h w hreach
    have hw : heap.Plain w w := by
      induction hreach with
      | refl => exact h
      | tail _ hcontains ih =>
          obtain ⟨x, rfl⟩ := hcontains.exists_ref
          have hitems := List.forall₂_same.mp ((plain_arrays_iff hacyclic).mp ih)
          exact hitems _ (contains_array_iff.mp hcontains)
    by_cases harray : ∃ x, w = .array x
    · obtain ⟨x, rfl⟩ := harray
      rfl
    · rw [Plain, plain?, compared_self_atoms harray] at hw
      simpa using hw
  · intro h
    rw [Plain, ← NanFree.equal_plain hacyclic (Or.inl h), equal?_eq, compared_self, h a .refl]
    rfl

end Heap

theorem catchTag_of_equal {H : Host} {body : Run Signal H Value} {c d : Context H}
    {tag thrown value : Value} (hbody : body c = .error (.raised (.throwTo thrown value)) d)
    (hequal : d.heap.Equal thrown tag) : catchTag tag body c = .ok value d := by
  have hanswer : d.heap.equal? thrown tag = some true := hequal
  simp only [catchTag, hbody, hanswer]

/-! ## The main result -/

/-- Without cycles equality is decided, symmetric and transitive, and only a NaN is not equal to
itself. A catch takes every throw whose tag has no NaN and equals its own. -/
theorem equality_laws {H : Host} :
    (∀ heap : Heap, heap.Acyclic ->
      (∀ a b, ∃ answer, heap.equal? a b = some answer ∧ heap.equal? b a = some answer) ∧
      (∀ a b c, heap.Equal a b -> heap.Equal b c -> heap.Equal a c) ∧
      (∀ a, heap.NanFree a -> heap.Equal a a) ∧
      (∀ a b, heap.NanFree a -> a.same b = true -> heap.Equal a b) ∧
      (∀ a b, heap.NanFree a ∨ heap.NanFree b -> heap.equal? a b = heap.plain? a b) ∧
      -- How the elements of arrays count with the shortcut and without it.
      (∀ x y, heap.Equal (.array x) (.array y) ↔
        x = y ∨ List.Forall₂ heap.Equal (heap.arrays.read x) (heap.arrays.read y)) ∧
      (∀ x y, heap.Plain (.array x) (.array y) ↔
        List.Forall₂ heap.Plain (heap.arrays.read x) (heap.arrays.read y)) ∧
      (∀ a b, (¬ ∃ x y, a = .array x ∧ b = .array y) -> heap.equal? a b = heap.plain? a b) ∧
      -- What equals itself.
      (∀ a, heap.Equal a a ↔ a.isNaN = false) ∧ ∀ a, heap.Plain a a ↔ heap.NanFree a) ∧
    (Equivalence fun a b : Value => a.same b = true) ∧
    ∀ (tag thrown value : Value) (body : Run Signal H Value) (c d : Context H),
      body c = .error (.raised (.throwTo thrown value)) d -> d.heap.Acyclic ->
      d.heap.NanFree thrown ->
      (d.heap.Equal thrown tag ∨ d.heap.Equal tag thrown ∨ d.heap.Plain thrown tag ∨
        d.heap.Plain tag thrown -> catchTag tag body c = .ok value d) ∧
      (¬ d.heap.Equal thrown tag -> catchTag tag body c = body c) := by
  refine ⟨fun heap h => ⟨fun a b => ?_, fun _ _ _ => .trans, fun a hnan => ?_,
    fun a b hnan hsame => ?_, fun a b => Heap.NanFree.equal_plain h,
    fun x y => Heap.equal_arrays_iff h, fun x y => Heap.plain_arrays_iff h, fun a b hatoms => ?_,
    fun a => Heap.equal_self_iff, fun a => Heap.plain_self_iff h⟩, Value.same_equivalence, ?_⟩
  · obtain ⟨answer, hanswer, _⟩ := exists_equal (h.not_endless a) b
    exact ⟨answer, hanswer, by rw [heap.equal?_comm, hanswer]⟩
  · exact Heap.equal_self_iff.mpr (hnan a .refl)
  · rw [← Value.same_iff.mp hsame]
    exact Heap.equal_self_iff.mpr (hnan a .refl)
  · rw [Heap.equal?_eq, Heap.plain?, Heap.comparedWithin_atoms hatoms,
      Heap.comparedWithin_atoms hatoms]
  · intro tag thrown value body c d hbody hacyclic hnan
    have hplain := Heap.NanFree.equal_plain (b := tag) hacyclic (Or.inl hnan)
    refine ⟨fun h => catchTag_of_equal hbody ?_, fun hdiffers => ?_⟩
    · rcases h with hequal | hequal | hsame | hsame
      · exact hequal
      · exact hequal.symm
      · exact hplain.trans hsame
      · exact hplain.trans ((d.heap.plain?_comm thrown tag).trans hsame)
    · rcases catchTag_of_not_endless hbody (hacyclic.not_endless thrown) tag with
        ⟨hequal, _⟩ | ⟨_, hpassed⟩
      · exact absurd hequal hdiffers
      · exact hpassed

/-- Two arrays of a NaN, an array of one and a copy of it, and two arrays of these: the former one
holds the array of one twice, the latter one holds the copy and then the array of one. -/
def sharedArrays : Heap :=
  [[.float .nan], [.float .nan], [.int 1], [.int 1], [.array ⟨2⟩, .array ⟨2⟩],
    [.array ⟨3⟩, .array ⟨2⟩]].foldl (fun heap items => (heap.newArray items).2) {}

theorem sharedArrays_acyclic : sharedArrays.Acyclic := by
  have hnext : ∀ {heap : Heap} {items : List Value}, ({} : Heap).Extends heap ->
      (∀ item ∈ items, heap.Holds item) -> ({} : Heap).Extends (heap.newArray items).2 :=
    fun h hitems => h.trans (Heap.extends_newArray hitems)
  have hmade : ({} : Heap).Extends sharedArrays := by
    refine hnext (hnext (hnext (hnext (hnext (hnext (.refl {}) ?_) ?_) ?_) ?_) ?_) ?_
    all_goals decide
  exact (hmade.acyclic_iff Heap.closed_empty).mpr Heap.acyclic_empty

theorem sharedArrays_nanFree : sharedArrays.NanFree (.array ⟨4⟩) := by
  have hmem : Value.array ⟨4⟩ ∈ [.array ⟨4⟩, .array ⟨2⟩, .int 1] := List.mem_cons_self
  refine .of_closed hmem ?_ ?_
  all_goals decide

/-- The two arrays are equal, so that a catch with the one takes a throw with the other; an array of
a NaN equals itself, and neither equals the other one nor itself if the elements are compared. -/
theorem equality_laws_sharing :
    let c : Context Bare := { Context.new {} .silent () with heap := sharedArrays }
    sharedArrays.Acyclic ∧ sharedArrays.NanFree (.array ⟨4⟩) ∧
    sharedArrays.Equal (.array ⟨5⟩) (.array ⟨4⟩) ∧ sharedArrays.Plain (.array ⟨4⟩) (.array ⟨5⟩) ∧
    catchTag (.array ⟨5⟩) (Run.raise (.throwTo (.array ⟨4⟩) (.int 7))) c = .ok (.int 7) c ∧
    sharedArrays.Equal (.array ⟨0⟩) (.array ⟨0⟩) ∧
    ¬ sharedArrays.Equal (.array ⟨0⟩) (.array ⟨1⟩) ∧
    ¬ sharedArrays.Plain (.array ⟨0⟩) (.array ⟨0⟩) := by
  intro c
  obtain ⟨hlaws, _, hcatch⟩ := equality_laws (H := Bare)
  obtain ⟨_, _, _, _, hplain, _, _, _, hself, _⟩ := hlaws sharedArrays sharedArrays_acyclic
  have hequal : sharedArrays.Equal (.array ⟨5⟩) (.array ⟨4⟩) := by
    show sharedArrays.equal? _ _ = some true
    decide +kernel
  have hsame : sharedArrays.Plain (.array ⟨4⟩) (.array ⟨5⟩) := by
    rw [Heap.Plain, ← hplain _ _ (Or.inl sharedArrays_nanFree)]
    exact hequal.symm
  have hcaught := hcatch (.array ⟨5⟩) (.array ⟨4⟩) (.int 7)
    (Run.raise (.throwTo (.array ⟨4⟩) (.int 7))) c c rfl sharedArrays_acyclic sharedArrays_nanFree
  refine ⟨sharedArrays_acyclic, sharedArrays_nanFree, hequal, hsame,
    hcaught.1 (Or.inr (Or.inl hequal)), (hself _).mpr rfl, ?_, ?_⟩
  · show sharedArrays.equal? _ _ ≠ some true
    decide +kernel
  · show sharedArrays.plain? _ _ ≠ some true
    decide +kernel

end ExecutionContext
