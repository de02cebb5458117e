import ExecutionContext.Context.Start
import ExecutionContext.Proofs.ClassGraph
import ExecutionContext.Proofs.Tables

/-! # The built-in classes of a start

A start defines the core classes and the exceptions, each by a plan, and after each plan walks the
registry to make its names constants of `Object`, except those that are bound already. The registry
binds every name once, so no order of the walk can be told from another. What a start over nothing
makes is a tree of classes under `Object`, with the same names in the registry and among the
constants.
-/

namespace ExecutionContext

variable {H : Host} {α : Type}

/-! ## Bindings in any order -/

/-- With every name bound once, the order of the bindings does not matter. -/
theorem Table.find_perm {entries others : List (String × α)} (h : entries.Perm others)
    (hnames : (entries.map Prod.fst).Nodup) (name : String) :
    find entries name = find others name := by
  induction h with
  | nil => rfl
  | cons entry _ ih =>
      have hrest := (List.nodup_cons.mp hnames).2
      simp only [find, ih hrest]
  | swap first second rest =>
      have hne : second.1 ≠ first.1 := by
        intro hsame
        simp [hsame] at hnames
      simp only [find]
      by_cases hfirst : first.1 = name
      · have hsecond : second.1 ≠ name := by rw [← hfirst]; exact hne
        simp [hfirst, hsecond]
      · simp [hfirst]
  | trans h₁ _ ih₁ ih₂ =>
      have hmiddle := (h₁.map Prod.fst).nodup_iff.mp hnames
      rw [ih₁ hnames, ih₂ hmiddle]

namespace Registry

/-- Make the names constants of `object` in the order in which they come, except where one is bound
already. -/
def bindInOrder (object : Ref .module) (heap : Heap) (entries : List (String × Ref .module)) :
    Heap :=
  entries.foldl
    (fun heap (name, module) =>
      match heap.constant? object name with
      | some _ => heap
      | none => heap.setConstant object name (.module module))
    heap

theorem bindConstants_eq (registry : Registry) (object : Ref .module) (heap : Heap) :
    registry.bindConstants object heap = bindInOrder object heap registry.entries := rfl

theorem bindInOrder_of_bound {object : Ref .module} {heap : Heap} {name : String} {value : Value}
    (h : heap.constant? object name = some value) (module : Ref .module)
    (entries : List (String × Ref .module)) :
    bindInOrder object heap ((name, module) :: entries) = bindInOrder object heap entries := by
  simp only [bindInOrder, List.foldl_cons, h]

theorem bindInOrder_of_unbound {object : Ref .module} {heap : Heap} {name : String}
    (h : heap.constant? object name = none) (module : Ref .module)
    (entries : List (String × Ref .module)) :
    bindInOrder object heap ((name, module) :: entries) =
      bindInOrder object (heap.setConstant object name (.module module)) entries := by
  simp only [bindInOrder, List.foldl_cons, h]

/-- A name that is bound keeps its value, and any other gets the first one that comes. -/
theorem constant?_bindInOrder {object : Ref .module} {heap : Heap}
    (hobject : heap.modules.Has object) (entries : List (String × Ref .module)) (name : String) :
    (bindInOrder object heap entries).constant? object name =
      (heap.constant? object name).or ((Table.find entries name).map Value.module) := by
  induction entries generalizing heap with
  | nil => simp [bindInOrder, Table.find]
  | cons entry entries ih =>
      obtain ⟨key, module⟩ := entry
      cases hbound : heap.constant? object key with
      | some value =>
          rw [bindInOrder_of_bound hbound, ih hobject]
          by_cases hname : key = name
          · rw [← hname, hbound]
            rfl
          · simp [Table.find, hname]
      | none =>
          rw [bindInOrder_of_unbound hbound,
            ih ((heap.retains_setConstant object key _).modules object hobject),
            Heap.constant?_setConstant hobject]
          by_cases hname : key = name
          · rw [← hname, hbound]
            simp [Table.find]
          · simp [Table.find, hname]

end Registry

/-! ## Heaps that differ in the order of constants -/

/-- The same modules, with the same constants bound in any order. -/
structure Heap.Alike (heap other : Heap) : Prop where
  size : other.modules.size = heap.modules.size
  module : ∀ ref, ∃ constants, other.module ref = { heap.module ref with constants := constants }
  constant? : ∀ ref name, other.constant? ref name = heap.constant? ref name

namespace Heap.Alike

variable {heap other : Heap}

theorem refl (heap : Heap) : heap.Alike heap :=
  ⟨rfl, fun _ => ⟨_, rfl⟩, fun _ _ => rfl⟩

theorem of_modules (h : other.modules = heap.modules) : heap.Alike other :=
  ⟨by rw [h], fun ref => ⟨_, module_of_modules h ref⟩, constant?_of_modules h⟩

theorem trans {last : Heap} (h : heap.Alike other) (h' : other.Alike last) : heap.Alike last where
  size := h'.size.trans h.size
  module ref := by
    obtain ⟨_, hother⟩ := h.module ref
    obtain ⟨constants, hlast⟩ := h'.module ref
    rw [hother] at hlast
    exact ⟨constants, hlast⟩
  constant? ref name := (h'.constant? ref name).trans (h.constant? ref name)

theorem next (h : heap.Alike other) : other.next = heap.next := by
  rw [Heap.next, Heap.next, h.size]

theorem has (h : heap.Alike other) {ref : Ref .module} :
    other.modules.Has ref ↔ heap.modules.Has ref := by
  rw [Arena.Has, Arena.Has, h.size]

theorem isClass (h : heap.Alike other) (ref : Ref .module) : other.isClass ref = heap.isClass ref := by
  obtain ⟨constants, hmodule⟩ := h.module ref
  rw [Heap.isClass, hmodule]
  rfl

theorem ancestors (h : heap.Alike other) (ref : Ref .module) :
    (other.module ref).ancestors = (heap.module ref).ancestors := by
  obtain ⟨constants, hmodule⟩ := h.module ref
  rw [hmodule]

theorem adding (h : heap.Alike other) (made : Module) :
    (heap.adding made).Alike (other.adding made) := by
  have hmade : ∀ ref, ref = heap.next ->
      (other.adding made).module ref = (heap.adding made).module ref := by
    rintro ref rfl
    rw [module_adding_next, ← h.next, module_adding_next]
  have hnone : ∀ ref, ¬ heap.modules.Has ref -> ref ≠ heap.next ->
      (other.adding made).module ref = (heap.adding made).module ref := by
    intro ref href hnext
    have hheap : ¬ (heap.adding made).modules.Has ref :=
      fun hlater => (has_adding_iff.mp hlater).elim href hnext
    have hother : ¬ (other.adding made).modules.Has ref := by
      intro hlater
      rcases has_adding_iff.mp hlater with hold | hnew
      · exact href (h.has.mp hold)
      · exact hnext (hnew.trans h.next)
    rw [module_of_not_has hheap, module_of_not_has hother]
  refine ⟨?_, fun ref => ?_, fun ref name => ?_⟩
  · show (other.modules.alloc made).2.size = (heap.modules.alloc made).2.size
    rw [Arena.size_alloc, Arena.size_alloc, h.size]
  · by_cases href : heap.modules.Has ref
    · rw [module_adding_of_has href, module_adding_of_has (h.has.mpr href)]
      exact h.module ref
    · by_cases hnext : ref = heap.next
      · exact ⟨_, hmade ref hnext⟩
      · exact ⟨_, hnone ref href hnext⟩
  · by_cases href : heap.modules.Has ref
    · rw [Heap.constant?, Heap.constant?, module_adding_of_has href,
        module_adding_of_has (h.has.mpr href)]
      exact h.constant? ref name
    · by_cases hnext : ref = heap.next
      · rw [Heap.constant?, hmade ref hnext]
        rfl
      · rw [Heap.constant?, hnone ref href hnext]
        rfl

theorem setConstant (h : heap.Alike other) (ref : Ref .module) (name : String) (value : Value) :
    (heap.setConstant ref name value).Alike (other.setConstant ref name value) where
  size := by
    show (other.modules.modify ref _).size = (heap.modules.modify ref _).size
    rw [Arena.modify, Arena.modify, Arena.size_write, Arena.size_write, h.size]
  module target := by
    obtain ⟨_, hheap⟩ := heap.module_setConstant ref name value target
    obtain ⟨constants, hother⟩ := other.module_setConstant ref name value target
    obtain ⟨_, hmodule⟩ := h.module target
    rw [hheap, hother, hmodule]
    exact ⟨constants, rfl⟩
  constant? target n := by
    by_cases htarget : ref = target
    · subst htarget
      by_cases href : heap.modules.Has ref
      · rw [constant?_setConstant href, constant?_setConstant (h.has.mpr href), h.constant?]
      · have hheap : ¬ (heap.setConstant ref name value).modules.Has ref :=
          fun hlater => href (Arena.has_write.mp hlater)
        have hother : ¬ (other.setConstant ref name value).modules.Has ref :=
          fun hlater => href (h.has.mp (Arena.has_write.mp hlater))
        rw [Heap.constant?, Heap.constant?, module_of_not_has hheap, module_of_not_has hother]
    · rw [constant?_setConstant_of_ne htarget, constant?_setConstant_of_ne htarget, h.constant?]

end Heap.Alike

/-! ## Built-in classes, with the registry walked in any order -/

namespace Registry

variable {object : Ref .module} {heap other : Heap}

/-- Binding names changes nothing but the constants of `object`. -/
theorem bindInOrder_rest (object : Ref .module) (heap : Heap)
    (entries : List (String × Ref .module)) :
    (bindInOrder object heap entries).modules.size = heap.modules.size ∧
      ∀ ref, (∃ constants, (bindInOrder object heap entries).module ref =
          { heap.module ref with constants := constants }) ∧
        (object ≠ ref -> ∀ name,
          (bindInOrder object heap entries).constant? ref name = heap.constant? ref name) := by
  induction entries generalizing heap with
  | nil => exact ⟨rfl, fun ref => ⟨⟨_, rfl⟩, fun _ _ => rfl⟩⟩
  | cons entry entries ih =>
      obtain ⟨key, module⟩ := entry
      cases hbound : heap.constant? object key with
      | some value =>
          rw [bindInOrder_of_bound hbound]
          exact ih heap
      | none =>
          obtain ⟨hsize, hrest⟩ := ih (heap.setConstant object key (.module module))
          rw [bindInOrder_of_unbound hbound]
          refine ⟨hsize.trans (Arena.size_write _ _ _), fun ref => ⟨?_, fun hne name => ?_⟩⟩
          · obtain ⟨_, hset⟩ := heap.module_setConstant object key (.module module) ref
            obtain ⟨constants, hlater⟩ := (hrest ref).1
            rw [hset] at hlater
            exact ⟨constants, hlater⟩
          · rw [(hrest ref).2 hne name, Heap.constant?_setConstant_of_ne hne]

theorem bindInOrder_alike (h : heap.Alike other) (hobject : heap.modules.Has object)
    {entries others : List (String × Ref .module)} (hperm : entries.Perm others)
    (hnames : (entries.map Prod.fst).Nodup) :
    (bindInOrder object heap entries).Alike (bindInOrder object other others) := by
  obtain ⟨hsize, hheap⟩ := bindInOrder_rest object heap entries
  obtain ⟨hsize', hother⟩ := bindInOrder_rest object other others
  refine ⟨(hsize'.trans h.size).trans hsize.symm, fun ref => ?_, fun ref name => ?_⟩
  · obtain ⟨_, hfirst⟩ := (hheap ref).1
    obtain ⟨constants, hsecond⟩ := (hother ref).1
    obtain ⟨_, hmodule⟩ := h.module ref
    rw [hfirst, hsecond, hmodule]
    exact ⟨constants, rfl⟩
  · by_cases hne : object = ref
    · subst hne
      rw [constant?_bindInOrder hobject, constant?_bindInOrder (h.has.mpr hobject), h.constant?,
        Table.find_perm hperm hnames]
    · rw [(hheap ref).2 hne, (hother ref).2 hne, h.constant?]

end Registry

def Heap.classNamed (heap : Heap) (name : String) (superclass : Option (Ref .module)) : Module :=
  { name := name
    isClass := true
    ancestors :=
      match superclass with
      | some parent => parent :: (heap.module parent).ancestors
      | none => [] }

theorem Heap.Alike.classNamed {heap other : Heap} (h : heap.Alike other) (name : String)
    (superclass : Option (Ref .module)) :
    other.classNamed name superclass = heap.classNamed name superclass := by
  cases superclass with
  | none => rfl
  | some parent => simp only [Heap.classNamed, h.ancestors]

namespace Catalogue

variable {ι : Type} [DecidableEq ι]

/-- The member of a plan as it is made after others. -/
def designed (blueprint : ι -> Blueprint ι) (root : Option (Ref .module))
    (catalogue : Catalogue ι) (heap : Heap) (member : ι) : Module :=
  let plan := blueprint member
  if plan.isClass then heap.classNamed plan.name ((plan.parent.map catalogue.get).or root)
  else { name := plan.name, isClass := false }

theorem defineMember_eq (blueprint : ι -> Blueprint ι) (root : Option (Ref .module))
    (catalogue : Catalogue ι) (registry : Registry) (heap : Heap) (member : ι) :
    defineMember blueprint root (catalogue, registry, heap) member =
      (catalogue ++ [(member, heap.next)], registry.insert (blueprint member).name heap.next,
        heap.adding (designed blueprint root catalogue heap member)) := by
  cases hsort : (blueprint member).isClass with
  | true =>
      simp only [defineMember, designed, hsort]
      rfl
  | false =>
      simp only [defineMember, designed, hsort]
      rfl

theorem define_alike {heap other : Heap} (h : heap.Alike other) (members : List ι)
    (blueprint : ι -> Blueprint ι) (root : Option (Ref .module)) (registry : Registry) :
    (define members blueprint root registry other).1 =
        (define members blueprint root registry heap).1 ∧
      (define members blueprint root registry other).2.1 =
        (define members blueprint root registry heap).2.1 ∧
      (define members blueprint root registry heap).2.2.Alike
        (define members blueprint root registry other).2.2 := by
  unfold define
  generalize ([] : Catalogue ι) = catalogue
  induction members generalizing catalogue registry heap other with
  | nil => exact ⟨rfl, rfl, h⟩
  | cons member members ih =>
      have hdesigned : designed blueprint root catalogue other member =
          designed blueprint root catalogue heap member := by
        simp only [designed, h.classNamed]
      rw [List.foldl_cons, List.foldl_cons, defineMember_eq, defineMember_eq, h.next, hdesigned]
      exact ih (h.adding _) _ _

/-- Carrying out a plan only adds modules. -/
theorem retains_define (members : List ι) (blueprint : ι -> Blueprint ι)
    (root : Option (Ref .module)) (registry : Registry) (heap : Heap) :
    heap.Retains (define members blueprint root registry heap).2.2 := by
  unfold define
  generalize ([] : Catalogue ι) = catalogue
  induction members generalizing catalogue registry heap with
  | nil => exact .refl heap
  | cons member members ih =>
      rw [List.foldl_cons, defineMember_eq]
      exact (heap.retains_adding _).trans (ih _ _ _)

end Catalogue

namespace Builtin

/-- The built-in classes defined over nothing, with the registry walked in the given order each
time that its names are bound. -/
def definedWalking (walk : List (String × Ref .module) -> List (String × Ref .module)) :
    Catalogue CoreClass × Catalogue ExceptionClass × Registry × Heap :=
  let (core, registry, heap) := Catalogue.define CoreClass.all CoreClass.blueprint none {} {}
  let object := core.get .object
  let heap := Registry.bindInOrder object heap (walk registry.entries)
  let (exceptions, registry, heap) :=
    Catalogue.define ExceptionClass.all ExceptionClass.blueprint (some object) registry heap
  (core, exceptions, registry, Registry.bindInOrder object heap (walk registry.entries))

def defined : Catalogue CoreClass × Catalogue ExceptionClass × Registry × Heap :=
  definedWalking id

/-- No order of the walk can be told from another. -/
theorem definedWalking_alike {walk : List (String × Ref .module) -> List (String × Ref .module)}
    (hwalk : ∀ entries, (walk entries).Perm entries) :
    (definedWalking walk).1 = defined.1 ∧ (definedWalking walk).2.1 = defined.2.1 ∧
      (definedWalking walk).2.2.1 = defined.2.2.1 ∧
      defined.2.2.2.Alike (definedWalking walk).2.2.2 := by
  unfold defined definedWalking
  have hobject : (Catalogue.define CoreClass.all CoreClass.blueprint none {} {}).2.2.modules.Has
      ((Catalogue.define CoreClass.all CoreClass.blueprint none {} {}).1.get .object) := by
    unfold Arena.Has
    decide +kernel
  have hnames : ((Catalogue.define CoreClass.all CoreClass.blueprint none {} {}).2.1.entries.map
      Prod.fst).Nodup := by decide +kernel
  have hall : (defined.2.2.1.entries.map Prod.fst).Nodup := by decide +kernel
  unfold defined definedWalking at hall
  generalize Catalogue.define CoreClass.all CoreClass.blueprint none {} {} = first at *
  obtain ⟨core, registry, heap⟩ := first
  dsimp only [id] at hobject hnames hall ⊢
  have hbound := Registry.bindInOrder_alike (.refl heap) hobject (hwalk registry.entries).symm hnames
  obtain ⟨hexceptions, hregistry, hdefined⟩ := Catalogue.define_alike hbound ExceptionClass.all
    ExceptionClass.blueprint (some (core.get .object)) registry
  refine ⟨rfl, hexceptions, hregistry, ?_⟩
  rw [hregistry]
  have hkept : (Registry.bindInOrder (core.get .object) heap registry.entries).modules.Has
      (core.get .object) := by
    rw [Arena.Has, (Registry.bindInOrder_rest _ _ _).1]
    exact hobject
  have hlater := (Catalogue.retains_define ExceptionClass.all ExceptionClass.blueprint
    (some (core.get .object)) registry _).modules _ hkept
  exact Registry.bindInOrder_alike hdefined hlater (hwalk _).symm hall

end Builtin

theorem Heap.modules_newTexts (heap : Heap) (texts : List String) :
    (heap.newTexts texts).2.modules = heap.modules := by
  induction texts generalizing heap with
  | nil => rfl
  | cons text texts ih => exact ih (heap.newText text).2

theorem modules_defineStandardGlobals (config : Config) (processId : Int64) (globals : Globals)
    (heap : Heap) : (defineStandardGlobals config processId globals heap).2.modules = heap.modules :=
  heap.modules_newTexts config.searchDirectories

/-! ## A start that walks the registry in any order -/

/-- The start, with the registry walked in the given order whenever its names are bound. -/
def Context.startWalking (walk : List (String × Ref .module) -> List (String × Ref .module))
    (c : Context H) (processId : Int64) : Context H :=
  if c.started then c
  else
    let (core, registry, heap) :=
      Catalogue.define CoreClass.all CoreClass.blueprint none c.registry c.heap
    let object := core.get .object
    let heap := Registry.bindInOrder object heap (walk registry.entries)
    let (exceptions, registry, heap) :=
      Catalogue.define ExceptionClass.all ExceptionClass.blueprint (some object) registry heap
    let heap := Registry.bindInOrder object heap (walk registry.entries)
    let (globals, heap) := defineStandardGlobals c.config processId c.globals heap
    let (self, heap) := heap.newObject object
    let (ns, levels) := Namespace.top c.levels object
    let (frame, frameCells) := c.frameCells.alloc { self := self, ns := some ns }
    let (scope, scopeCells) := c.scopeCells.alloc (Scope.withLocals [])
    { c with
      started := true
      marks := (c.marks.push .absent).sealBase
      frames := (c.frames.push frame).sealBase
      scopes := (c.scopes.push scope).sealBase
      classes := (c.classes.setCurrent (some object)).2
      visibility := .ownCode
      ns := some ns
      globals := globals
      registry := registry
      core := some core
      exceptions := some exceptions
      topSelf := self
      topFrame := some frame
      topScope := some scope
      topNamespace := some ns
      heap := heap
      frameCells := frameCells
      scopeCells := scopeCells
      levels := levels }

theorem Context.startWalking_id (c : Context H) (processId : Int64) :
    c.startWalking id processId = c.start processId := by
  unfold startWalking start Builtin.defineCore
  generalize Catalogue.define CoreClass.all CoreClass.blueprint none c.registry c.heap = first
  obtain ⟨core, registry, heap⟩ := first
  dsimp only [id]
  unfold Builtin.defineExceptions
  rw [Registry.bindConstants_eq]
  generalize Catalogue.define ExceptionClass.all ExceptionClass.blueprint _ registry _ = second
  rfl

theorem startWalking_defined {c : Context H} (hstarted : c.started = false)
    (hregistry : c.registry = {}) (hheap : c.heap = {})
    (walk : List (String × Ref .module) -> List (String × Ref .module)) (processId : Int64) :
    (c.startWalking walk processId).core = some (Builtin.definedWalking walk).1 ∧
      (c.startWalking walk processId).exceptions = some (Builtin.definedWalking walk).2.1 ∧
      (c.startWalking walk processId).registry = (Builtin.definedWalking walk).2.2.1 ∧
      (c.startWalking walk processId).heap.modules =
        (Builtin.definedWalking walk).2.2.2.modules := by
  have hstart : ¬ c.started = true := by simp [hstarted]
  unfold Context.startWalking Builtin.definedWalking
  rw [if_neg hstart, hregistry, hheap]
  generalize Catalogue.define CoreClass.all CoreClass.blueprint none {} {} = first
  obtain ⟨core, registry, heap⟩ := first
  dsimp only
  generalize Catalogue.define ExceptionClass.all ExceptionClass.blueprint _ registry _ = second
  obtain ⟨exceptions, registry, heap⟩ := second
  exact ⟨rfl, rfl, rfl, modules_defineStandardGlobals c.config processId c.globals _⟩

/-- A start over nothing defines the built-in classes, and makes no other modules. -/
theorem start_defined {c : Context H} (hstarted : c.started = false) (hregistry : c.registry = {})
    (hheap : c.heap = {}) (processId : Int64) :
    (c.start processId).core = some Builtin.defined.1 ∧
      (c.start processId).exceptions = some Builtin.defined.2.1 ∧
      (c.start processId).registry = Builtin.defined.2.2.1 ∧
      (c.start processId).heap.modules = Builtin.defined.2.2.2.modules := by
  rw [← c.startWalking_id]
  exact startWalking_defined hstarted hregistry hheap id processId

/-! ## What the start binds -/

/-- The classes and modules that the start made, under the names that it made them under. -/
def Context.builtins (c : Context H) : List (String × Ref .module) :=
  (c.core.getD []).map (fun entry => ((CoreClass.blueprint entry.1).name, entry.2)) ++
    (c.exceptions.getD []).map (fun entry => ((ExceptionClass.blueprint entry.1).name, entry.2))

def Context.builtin? (c : Context H) (name : String) : Option (Ref .module) :=
  Table.find c.builtins name

theorem Table.find_map {β : Type} (entries : List (String × α)) (f : α -> β) (name : String) :
    find (entries.map fun entry => (entry.1, f entry.2)) name = (find entries name).map f := by
  induction entries with
  | nil => rfl
  | cons entry entries ih =>
      simp only [List.map_cons, find, ih]
      by_cases hname : entry.1 = name <;> simp [hname]

namespace Builtin

/-- What a start over nothing makes is a tree under `Object`. -/
theorem tree_defined : defined.2.2.2.Tree (defined.1.get .object) := by
  have hlinks : ∀ index < defined.2.2.2.modules.size,
      ∀ parent ∈ defined.2.2.2.superclass? ⟨index⟩, parent.index < index ∧
        (defined.2.2.2.module ⟨index⟩).ancestors =
          parent :: (defined.2.2.2.module parent).ancestors ∧
        defined.2.2.2.isClass ⟨index⟩ = true ∧ defined.2.2.2.isClass parent = true := by
    decide +kernel
  have hrooted : ∀ index < defined.2.2.2.modules.size, defined.2.2.2.isClass ⟨index⟩ = true ->
      defined.2.2.2.inheritsFrom ⟨index⟩ (defined.1.get .object) = true := by
    decide +kernel
  refine ⟨?_, ?_, ?_, ?_, ?_⟩
  · intro ref parent hunder
    obtain ⟨hlt, hstored, _⟩ := hlinks ref.index (Heap.has_of_superclass? hunder) parent hunder
    exact ⟨hlt, hstored⟩
  · decide +kernel
  · decide +kernel
  · intro ref parent hunder
    exact (hlinks ref.index (Heap.has_of_superclass? hunder) parent hunder).2.2
  · intro ref hclass
    exact hrooted ref.index (Heap.has_of_isClass hclass) hclass

def named : List (String × Ref .module) :=
  defined.1.map (fun entry => ((CoreClass.blueprint entry.1).name, entry.2)) ++
    defined.2.1.map (fun entry => ((ExceptionClass.blueprint entry.1).name, entry.2))

theorem get?_defined (name : String) : defined.2.2.1.get? name = Table.find named name := by
  have hentries : defined.2.2.1.entries = named := by decide +kernel
  rw [Table.get?, hentries]

theorem constant?_defined (name : String) :
    defined.2.2.2.constant? (defined.1.get .object) name =
      (Table.find named name).map Value.module := by
  have hentries : (defined.2.2.2.module (defined.1.get .object)).constants.entries =
      named.map fun entry => (entry.1, Value.module entry.2) := by decide +kernel
  rw [Heap.constant?, Table.get?, hentries, Table.find_map]

theorem nodup_defined : defined.2.2.1.keys.Nodup := by
  decide +kernel

end Builtin

end ExecutionContext
