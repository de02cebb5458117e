import ExecutionContext.Proofs.Operations

/-! # What single operations do to arrays

Most operations leave the heap alone. The others make classes, texts and arrays, and the
arrays are filled with texts and with the elements of an array that is there already. So
no single operation does more to arrays than to make new ones, unless it is a change that
code makes to a value through a handle.
-/

namespace ExecutionContext

variable {H : Host} {ε α β : Type} {pushing : Prop} {held : List Value}

/-! ## Runs under which the heap evolves -/

/-- The heap changes step by step, from one that is closed and holds some values. -/
def Contract.growing (pushing : Prop) (held : List Value) : Contract H where
  Holds c := c.heap.Closed ∧ ∀ value ∈ held, c.heap.Holds value
  Links c d := c.heap.Evolves pushing d.heap
  Faults _ := True
  refl _ := .refl
  trans := .trans

namespace Run

theorem keeps_growing {run : Run ε H α}
    (h : ∀ c : Context H, c.heap.Closed -> (∀ value ∈ held, c.heap.Holds value) ->
      c.heap.Evolves pushing (run.after c).heap) : run.Keeps (.growing pushing held) := by
  rintro c ⟨hclosed, hheld⟩
  have hevolves := h c hclosed hheld
  exact Contract.Allows.of_after (fun _ => trivial)
    ⟨⟨hevolves.closed hclosed, fun value hmem => hevolves.holds (hheld value hmem)⟩, hevolves⟩

namespace Keeps

theorem evolves {run : Run ε H α} (h : run.Keeps (.growing pushing held)) {c : Context H}
    (hclosed : c.heap.Closed) (hheld : ∀ value ∈ held, c.heap.Holds value) :
    c.heap.Evolves pushing (run.after c).heap :=
  (h c ⟨hclosed, hheld⟩).after.2

theorem holding {run : Run ε H α} (h : run.Keeps (.growing pushing [])) (held : List Value) :
    run.Keeps (.growing pushing held) :=
  keeps_growing fun _ hclosed _ => h.evolves hclosed nofun

/-- What a run may rely on in the context that it starts from need not be asked of it. -/
theorem relying {run : Run ε H α} (h : ∀ c : Context H, c.heap.Closed -> ∃ held,
      (∀ value ∈ held, c.heap.Holds value) ∧
      (Contract.growing pushing held).Allows c (run c)) : run.Keeps (.growing pushing []) := by
  refine keeps_growing fun c hclosed _ => ?_
  obtain ⟨held, _, hallows⟩ := h c hclosed
  exact hallows.after.2

theorem putting (put : Context H -> Context H) {next : Context H -> Run ε H α}
    (h : ∀ c : Context H, c.heap.Extends (put c).heap)
    (hn : ∀ c, (next c).Keeps (.growing pushing held)) :
    (do
      let c ← MonadState.get
      MonadStateOf.set (put c)
      next c : Run ε H α).Keeps (.growing pushing held) := by
  rintro c ⟨hclosed, hheld⟩
  rw [bind_of_ok (get_apply c), bind_of_ok (set_apply c (put c))]
  refine Contract.Allows.of_links (hn c _ ⟨?_, fun value hmem => ?_⟩) (.of_extends (h c))
  · exact (h c).closed hclosed
  · exact (h c).holds (hheld value hmem)

end Keeps

theorem keeps_growing_of_spared {run : Run ε H α} (h : ∀ c, (run.after c).heap = c.heap) :
    run.Keeps (.growing pushing held) := by
  refine keeps_growing fun c _ _ => ?_
  rw [h c]

theorem Tidy.growing {run : Run ε H α} (h : run.Tidy) : run.Keeps (.growing pushing held) := by
  refine keeps_growing_of_spared fun c => ?_
  rcases h c with ⟨a, d, hr, hheap⟩ | ⟨fault, d, hr, hheap⟩
  · rw [after_of_ok hr, hheap]
  · rw [after_of_error hr, hheap]

theorem Looks.growing {run : Run ε H α} (h : run.Looks) : run.Keeps (.growing pushing held) := by
  refine keeps_growing_of_spared fun c => ?_
  rcases h c with ⟨a, hr⟩ | ⟨exit, hr⟩
  · rw [after_of_ok hr]
  · rw [after_of_error hr]

end Run

theorem newArray_growing (held : List Value) {items : List Value} (h : ∀ item ∈ items, item ∈ held) :
    (newArray items : Run ε H Value).Keeps (.growing pushing held) :=
  Run.keeps_growing fun _ _ hheld =>
    .of_extends (Heap.extends_newArray fun item hmem => hheld item (h item hmem))

theorem packArgs_growing (args : List Value) :
    (packArgs args : Run ε H Value).Keeps (.growing pushing args) :=
  Run.keeps_growing fun _ _ hheld => .of_extends (Heap.extends_fromArgs hheld)

/-! ## The start -/

def Heap.SameValues (before after : Heap) : Prop :=
  after = { before with modules := after.modules }

namespace Heap.SameValues

variable {before mid after : Heap}

theorem trans (h₁ : before.SameValues mid) (h₂ : mid.SameValues after) :
    before.SameValues after := by
  refine Eq.trans h₂ ?_
  rw [h₁]

theorem arrays_eq (h : before.SameValues after) : after.arrays = before.arrays := by
  rw [h]

theorem texts_eq (h : before.SameValues after) : after.texts = before.texts := by
  rw [h]

end Heap.SameValues

theorem Catalogue.sameValues_define {ι : Type} [DecidableEq ι] (members : List ι)
    (blueprint : ι -> Blueprint ι) (root : Option (Ref .module)) (registry : Registry)
    (heap : Heap) : heap.SameValues (Catalogue.define members blueprint root registry heap).2.2 := by
  have hfold : ∀ state : Catalogue ι × Registry × Heap,
      state.2.2.SameValues (members.foldl (defineMember blueprint root) state).2.2 := by
    induction members with
    | nil => exact fun _ => rfl
    | cons member members ih =>
        intro state
        have hmember : state.2.2.SameValues (defineMember blueprint root state member).2.2 := by
          unfold defineMember
          dsimp only
          split
          · rfl
          · rfl
        exact hmember.trans (ih _)
  exact hfold ([], registry, heap)

theorem Registry.sameValues_bindConstants (registry : Registry) (object : Ref .module)
    (heap : Heap) : heap.SameValues (registry.bindConstants object heap) := by
  unfold bindConstants
  generalize registry.entries = entries
  induction entries generalizing heap with
  | nil => rfl
  | cons entry entries ih =>
      rw [List.foldl_cons]
      refine Heap.SameValues.trans ?_ (ih _)
      dsimp only
      split
      · rfl
      · rfl

theorem Builtin.sameValues_defineCore (registry : Registry) (heap : Heap) :
    heap.SameValues (Builtin.defineCore registry heap).2.2 := by
  have hdefine := Catalogue.sameValues_define CoreClass.all CoreClass.blueprint none registry heap
  unfold defineCore
  generalize Catalogue.define CoreClass.all CoreClass.blueprint none registry heap = defined at *
  exact hdefine.trans (Registry.sameValues_bindConstants _ _ _)

theorem Builtin.sameValues_defineExceptions (object : Ref .module) (registry : Registry)
    (heap : Heap) : heap.SameValues (Builtin.defineExceptions object registry heap).2.2 := by
  have hdefine := Catalogue.sameValues_define ExceptionClass.all ExceptionClass.blueprint
    (some object) registry heap
  unfold defineExceptions
  generalize Catalogue.define ExceptionClass.all ExceptionClass.blueprint (some object) registry
    heap = defined at *
  exact hdefine.trans (Registry.sameValues_bindConstants _ _ _)

/-- The standard globals come with an array of search directories and an empty one. -/
theorem extends_defineStandardGlobals (config : Config) (processId : Int64) (globals : Globals)
    (heap : Heap) : heap.Extends (defineStandardGlobals config processId globals heap).2 := by
  have hdirectories : heap.Extends (heap.newTexts config.searchDirectories).2 :=
    .of_arrays_eq (Heap.arrays_newTexts heap _)
  have hpath : (heap.newTexts config.searchDirectories).2.Extends
      ((heap.newTexts config.searchDirectories).2.newArray
        (heap.newTexts config.searchDirectories).1).2 :=
    Heap.extends_newArray fun value hmem =>
      Heap.holds_of_not_array (Heap.not_array_of_mem_newTexts hmem)
  have hfeatures : ∀ heap : Heap, heap.Extends (heap.newArray []).2 :=
    fun heap => Heap.extends_newArray nofun
  exact (hdirectories.trans hpath).trans ((hfeatures _).trans (.of_arrays_eq rfl))

/-- A start defines classes, which leaves values alone, then the standard globals, and then it makes
an object. -/
theorem start_cases (c : Context H) (processId : Int64) :
    c.start processId = c ∨ ∃ classes object, c.heap.SameValues classes ∧
      (c.start processId).globals =
        (defineStandardGlobals c.config processId c.globals classes).1 ∧
      (c.start processId).heap =
        ((defineStandardGlobals c.config processId c.globals classes).2.newObject object).2 := by
  unfold Context.start
  split
  · exact Or.inl rfl
  · have hcore := Builtin.sameValues_defineCore c.registry c.heap
    generalize Builtin.defineCore c.registry c.heap = defined at hcore ⊢
    obtain ⟨core, registry, heap⟩ := defined
    have hexceptions := Builtin.sameValues_defineExceptions (core.get .object) registry heap
    exact Or.inr ⟨_, core.get .object, hcore.trans hexceptions, rfl, rfl⟩

theorem extends_start (c : Context H) (processId : Int64) :
    c.heap.Extends (c.start processId).heap := by
  rcases start_cases c processId with hagain | ⟨classes, object, hclasses, _, hheap⟩
  · rw [hagain]
    exact .refl c.heap
  · have hglobals := extends_defineStandardGlobals c.config processId c.globals classes
    rw [hheap]
    exact (Heap.Extends.of_arrays_eq hclasses.arrays_eq).trans (hglobals.trans (.of_arrays_eq rfl))

/-! ## All operations -/

theorem Context.Change.extends {effects : List Effect} {c d : Context H} (h : c.Change effects d)
    (hvalues : .values ∉ effects) (hclosed : c.heap.Closed) : c.heap.Extends d.heap := by
  cases h with
  | start processId _ => exact extends_start c processId
  | values heap hmem => exact absurd hmem hvalues
  | making hextends _ => exact hextends hclosed
  | _ => exact .refl c.heap

/-- Single operations make new arrays at most, unless they change values through a handle. -/
theorem Operation.growing {effects : List Effect} {run : Run ε H α} (h : Operation effects run)
    (hvalues : .values ∉ effects) : run.Keeps (.growing pushing held) := by
  refine h.within.keepsAll (fun _ => trivial) fun hc hchange => ?_
  have hextends := hchange.extends hvalues hc.1
  exact ⟨⟨hextends.closed hc.1, fun value hmem => hextends.holds (hc.2 value hmem)⟩,
    .of_extends hextends⟩

/-- What changes values through a handle does nothing else. -/
theorem Operation.after_of_values {effects : List Effect} {run : Run ε H α}
    (h : Operation effects run) (hvalues : .values ∈ effects) :
    ∃ change : Heap -> Heap, ∀ c, run.after c = { c with heap := change c.heap } := by
  cases h with
  | changeHeap change => exact ⟨change, fun _ => rfl⟩
  | _ => exact absurd hvalues (by decide)

end ExecutionContext
