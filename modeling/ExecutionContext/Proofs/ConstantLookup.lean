import ExecutionContext.Proofs.Definitions

/-! # Looking up constants

A constant is looked up on the modules of the namespace, from the inside out, and then on the
superclasses of the innermost module: the first of these modules that binds the name answers. A
rooted context is one whose namespace, and that of every frame, ends at the top-level namespace,
which stands for `Object`. In it every name that `Object` binds is found, on whatever module of the
namespace binds it first.
-/

namespace ExecutionContext

variable {H : Host}

/-! ## The first module that binds a name -/

/-- The first of the modules that binds the name binds it to the value. -/
def Heap.BindsFirst (heap : Heap) (modules : List (Ref .module)) (name : String)
    (value : Value) : Prop :=
  ∃ before module after, modules = before ++ module :: after ∧
    heap.constant? module name = some value ∧ ∀ other ∈ before, heap.constant? other name = none

theorem Heap.findSome?_constant?_iff {heap : Heap} {modules : List (Ref .module)} {name : String}
    {value : Value} : modules.findSome? (fun module => heap.constant? module name) = some value ↔
      heap.BindsFirst modules name value :=
  List.findSome?_eq_some_iff

theorem Heap.exists_bindsFirst {heap : Heap} {modules : List (Ref .module)} {name : String}
    {module : Ref .module} (hmem : module ∈ modules)
    (hbound : (heap.constant? module name).isSome = true) :
    ∃ value, heap.BindsFirst modules name value := by
  cases hfound : modules.findSome? (fun module => heap.constant? module name) with
  | some value => exact ⟨value, Heap.findSome?_constant?_iff.mp hfound⟩
  | none =>
      have hnone := List.findSome?_eq_none_iff.mp hfound module hmem
      rw [hnone] at hbound
      cases hbound

namespace Namespace

def modules (ns : Namespace) (levels : Levels) : List (Ref .module) :=
  ns.all.map levels.read

/-- Both searches, that through the levels and that through the superclasses, start at the innermost
module; what the first one did not find there, the second one does not find there either. -/
theorem constant?_eq (ns : Namespace) (levels : Levels) (heap : Heap) (name : String) :
    ns.constant? levels heap name =
      (ns.modules levels ++ (heap.module (ns.module levels)).ancestors).findSome?
        (fun module => heap.constant? module name) := by
  have hlexical : ns.all.findSome? (fun level => heap.constant? (levels.read level) name) =
      (ns.modules levels).findSome? (fun module => heap.constant? module name) := by
    rw [modules, List.findSome?_map]
    rfl
  rw [constant?, hlexical, List.findSome?_append]
  cases hfound : (ns.modules levels).findSome? (fun module => heap.constant? module name) with
  | some value => rfl
  | none =>
      have hinner : heap.constant? (ns.module levels) name = none :=
        List.findSome?_eq_none_iff.mp hfound _ List.mem_cons_self
      rw [Heap.inheritedConstant?, List.findSome?_cons, hinner]

theorem constant?_eq_some_iff {ns : Namespace} {levels : Levels} {heap : Heap} {name : String}
    {value : Value} : ns.constant? levels heap name = some value ↔
      heap.BindsFirst (ns.modules levels ++ (heap.module (ns.module levels)).ancestors) name
        value := by
  rw [constant?_eq]
  exact Heap.findSome?_constant?_iff

theorem constant?_eq_none_iff {ns : Namespace} {levels : Levels} {heap : Heap} {name : String} :
    ns.constant? levels heap name = none ↔
      ∀ module ∈ ns.modules levels ++ (heap.module (ns.module levels)).ancestors,
        heap.constant? module name = none := by
  rw [constant?_eq]
  exact List.findSome?_eq_none_iff

/-- What the modules of the levels bind, the superclasses have no say in. -/
theorem constant?_of_bindsFirst {ns : Namespace} {levels : Levels} {heap : Heap} {name : String}
    {value : Value} (h : heap.BindsFirst (ns.modules levels) name value) :
    ns.constant? levels heap name = some value := by
  rw [constant?_eq, List.findSome?_append, Heap.findSome?_constant?_iff.mpr h]
  rfl

/-! ## Namespaces that end at a level -/

def EndsAt (ns : Namespace) (top : Ref .level) : Prop :=
  ns.all.getLast? = some top

theorem EndsAt.child {ns : Namespace} {top : Ref .level} (h : ns.EndsAt top) (levels : Levels)
    (module : Ref .module) : (ns.child levels module).1.EndsAt top := by
  have hall : (ns.child levels module).1.all = (levels.alloc module).1 :: ns.all := rfl
  rw [EndsAt, hall, List.getLast?_cons, h]
  rfl

/-- What the module of the outermost level binds is found. -/
theorem EndsAt.exists_bindsFirst {ns : Namespace} {top : Ref .level} (h : ns.EndsAt top)
    {levels : Levels} {heap : Heap} {name : String}
    (hbound : (heap.constant? (levels.read top) name).isSome = true) :
    ∃ value, heap.BindsFirst (ns.modules levels) name value := by
  have hmem : levels.read top ∈ ns.modules levels :=
    List.mem_map_of_mem (List.mem_of_getLast? h)
  exact Heap.exists_bindsFirst hmem hbound

end Namespace

/-! ## Names that stay bound -/

/-- The modules of a heap are in a later one, and what a module binds it binds there, perhaps to
another value. -/
structure Heap.KeepsNames (heap later : Heap) : Prop where
  modules : ∀ ref, heap.modules.Has ref -> later.modules.Has ref
  bound : ∀ ref name, (heap.constant? ref name).isSome = true ->
    (later.constant? ref name).isSome = true

namespace Heap.KeepsNames

variable {heap later last : Heap}

theorem refl (heap : Heap) : heap.KeepsNames heap :=
  ⟨fun _ h => h, fun _ _ h => h⟩

theorem trans (h : heap.KeepsNames later) (h' : later.KeepsNames last) : heap.KeepsNames last :=
  ⟨fun ref href => h'.modules ref (h.modules ref href),
    fun ref name hbound => h'.bound ref name (h.bound ref name hbound)⟩

theorem of_modules (h : later.modules = heap.modules) : heap.KeepsNames later := by
  refine ⟨fun ref href => ?_, fun ref name hbound => ?_⟩
  · rw [h]
    exact href
  · rw [Heap.constant?_of_modules h]
    exact hbound

theorem adding (heap : Heap) (made : Module) : heap.KeepsNames (heap.adding made) := by
  refine ⟨(heap.retains_adding made).modules, fun ref name hbound => ?_⟩
  by_cases href : heap.modules.Has ref
  · rw [Heap.constant?, Heap.module_adding_of_has href]
    exact hbound
  · -- A module that is not there binds nothing.
    rw [Heap.constant?, Heap.module_of_not_has href] at hbound
    cases hbound

theorem setConstant (heap : Heap) (ref : Ref .module) (name : String) (value : Value) :
    heap.KeepsNames (heap.setConstant ref name value) := by
  refine ⟨(heap.retains_setConstant ref name value).modules, fun other key hbound => ?_⟩
  by_cases hsame : ref = other
  · subst hsame
    by_cases href : heap.modules.Has ref
    · rw [Heap.constant?_setConstant href]
      by_cases hname : name = key
      · simp [hname]
      · simp [hname, hbound]
    · rw [Heap.constant?, Heap.module_of_not_has href] at hbound
      cases hbound
  · rw [Heap.constant?_setConstant_of_ne hsame]
    exact hbound

end Heap.KeepsNames

/-! ## Rooted contexts -/

def RootedAt (top : Ref .level) (ns : Option Namespace) : Prop :=
  ∃ inner, ns = some inner ∧ inner.EndsAt top

/-- A started context whose namespace ends at the top level, which stands for `Object`, and so does
that of every frame handed out; only such frames are on the stack or captured by a block on the
stack. -/
structure Context.Rooted (c : Context H) (top : Ref .level) (core : Catalogue CoreClass) :
    Prop where
  started : c.started = true
  core_eq : c.core = some core
  object : c.heap.modules.Has (core.get .object)
  topNamespace : c.topNamespace = some { level := top }
  level : c.levels.Has top
  module : c.levels.read top = core.get .object
  ns : RootedAt top c.ns
  cells : ∀ frame, c.frameCells.Has frame -> RootedAt top (c.frameCells.read frame).ns
  first : c.frameCells.Has default
  frames : ∀ frame ∈ c.frames.entries, c.frameCells.Has frame
  blocks : ∀ block ∈ c.blocks.entries, c.frameCells.Has block.frame

namespace Context.Rooted

variable {c : Context H} {top : Ref .level} {core : Catalogue CoreClass}

theorem topConstant? (h : c.Rooted top core) (name : String) :
    c.topConstant? name = c.heap.constant? (c.levels.read top) name := by
  rw [Context.topConstant?, h.core_eq, h.module]
  rfl

/-- A name that `Object` binds is found on the nearest module of the namespace that binds it. -/
theorem exists_constant? (h : c.Rooted top core) {ns : Namespace} (hns : c.ns = some ns)
    {name : String} (hbound : (c.topConstant? name).isSome = true) :
    ∃ value, c.constant? name = some value ∧
      c.heap.BindsFirst (ns.modules c.levels) name value := by
  obtain ⟨inner, hinner, hends⟩ := h.ns
  cases hns.symm.trans hinner
  rw [h.topConstant?] at hbound
  obtain ⟨value, hfirst⟩ := hends.exists_bindsFirst hbound
  refine ⟨value, ?_, hfirst⟩
  rw [Context.constant?, hns]
  exact Namespace.constant?_of_bindsFirst hfirst

end Context.Rooted

/-- The first start makes one level and one frame, for `Object` and for the outermost code. -/
theorem Context.start_namespace {c : Context H} (hstarted : c.started = false)
    (processId : Int64) : ∃ core self,
      let level := c.levels.alloc (core.get .object)
      let frame := c.frameCells.alloc { self := self, ns := some { level := level.1 } }
      let d := c.start processId
      d.started = true ∧ d.core = some core ∧ d.ns = some { level := level.1 } ∧
        d.topNamespace = some { level := level.1 } ∧ d.levels = level.2 ∧
        d.frameCells = frame.2 ∧ d.frames.entries = frame.1 :: c.frames.entries ∧
        d.blocks = c.blocks := by
  unfold Context.start
  rw [hstarted, if_neg Bool.false_ne_true]
  exact ⟨_, _, rfl, rfl, rfl, rfl, rfl, rfl, rfl, rfl⟩

theorem Context.rooted_start (config : Config) (errors : ErrorStream) (host : H.State)
    (processId : Int64) :
    ((Context.new config errors host).start processId).Rooted ⟨0⟩ Builtin.defined.1 := by
  have hclassed := classed_start (H := H) config errors host processId
  obtain ⟨core, self, hstarted, hcore, hns, htop, hlevels, hcells, hframes, hblocks⟩ :=
    start_namespace (c := Context.new config errors host) rfl processId
  cases hclassed.core_eq.symm.trans hcore
  have hrooted : RootedAt ⟨0⟩ (some { level := ⟨0⟩ }) := ⟨_, rfl, rfl⟩
  refine ⟨hstarted, hcore, Heap.has_of_isClass hclassed.tree.root_class, htop, ?_, ?_, ?_, ?_, ?_,
    ?_, ?_⟩
  · rw [hlevels]
    exact Arena.has_alloc _ _
  · rw [hlevels]
    exact Arena.read_alloc_self _ _
  · rw [hns]
    exact hrooted
  · intro frame hframe
    rw [hcells] at hframe ⊢
    have hindex : frame.index < 1 := hframe
    have honly : frame = ⟨0⟩ := congrArg Ref.mk (Nat.lt_one_iff.mp hindex)
    subst honly
    exact hrooted
  · rw [hcells]
    exact Arena.has_alloc _ _
  · intro frame hframe
    rw [hframes] at hframe
    rw [hcells, List.mem_singleton.mp hframe]
    exact Arena.has_alloc _ _
  · intro block hblock
    rw [hblocks] at hblock
    cases hblock

end ExecutionContext
