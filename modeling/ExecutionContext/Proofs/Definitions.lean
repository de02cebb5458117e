import ExecutionContext.Context.Classes
import ExecutionContext.Proofs.Layer
import ExecutionContext.Proofs.Starting

/-! # Definitions after the start

Programs define classes, modules and constants under names, and names may be used again, those
of the built-in classes included. A definition that is carried out either makes one new module,
registers it and binds it, or binds one value; a refused one changes nothing. So in whatever order
definitions come, the classes stay a tree under `Object`, and what was there before stays as it
was.
-/

namespace ExecutionContext

variable {H : Host} {ε α : Type}

/-! ## Definitions and what they do -/

/-- A definition: of a class under a given class or under `Object`, of a class under a registered
one, of a module, or of a constant. -/
inductive Definition where
  | cls (name : String) (superclass : Option (Ref .module))
  | clsUnder (name superclass : String)
  | module (name : String)
  | constant (name : String) (value : Value)

/-- What a definition did when it was carried out. -/
inductive Deed where
  | made (name : String) (isClass : Bool) (module : Ref .module)
  | bound (name : String) (value : Value)
deriving DecidableEq

namespace Definition

def perform : Definition -> Run Failure H Deed
  | .cls name superclass => do return .made name true (← defineClass name superclass)
  | .clsUnder name superclass => do return .made name true (← defineClassUnder name superclass)
  | .module name => do return .made name false (← defineModule name)
  | .constant name value => do
      defineConstant name value
      return .bound name value

def Given (c : Context H) : Definition -> Prop
  | .cls _ (some superclass) => c.heap.isClass superclass = true
  | _ => True

end Definition

def Heap.subclass (heap : Heap) (name : String) (parent : Ref .module) : Module :=
  { name := name, isClass := true, ancestors := parent :: (heap.module parent).ancestors }

namespace Context

def making (c : Context H) (object : Ref .module) (made : Module) : Context H :=
  { c with
    registry := c.registry.insert made.name c.heap.next
    heap := (c.heap.adding made).setConstant object made.name (.module c.heap.next) }

def binding (c : Context H) (object : Ref .module) (name : String) (value : Value) : Context H :=
  { c with heap := c.heap.setConstant object name value }

end Context

section Performing

variable {c : Context H} {core : Catalogue CoreClass}

theorem coreClasses_eq (hc : c.core = some core) : (coreClasses : Run ε H _) c = .ok core c := by
  unfold coreClasses
  rw [hc]

theorem objectClass_eq (hc : c.core = some core) :
    (objectClass : Run ε H _) c = .ok (core.get .object) c := by
  unfold objectClass
  rw [Run.bind_of_ok (coreClasses_eq hc)]
  rfl

theorem defineClass_eq (hc : c.core = some core) (name : String)
    (superclass : Option (Ref .module)) :
    (defineClass name superclass : Run ε H _) c = .ok c.heap.next (c.making (core.get .object)
      (c.heap.subclass name (superclass.getD (core.get .object)))) := by
  unfold defineClass
  rw [Run.bind_of_ok (objectClass_eq hc)]
  rfl

theorem defineModule_eq (hc : c.core = some core) (name : String) :
    (defineModule name : Run ε H _) c = .ok c.heap.next
      (c.making (core.get .object) { name := name, isClass := false }) := by
  have hobject : (objectClass : Run ε H _)
      { c with
        registry := (c.registry.defineModule c.heap name).2.1
        heap := (c.registry.defineModule c.heap name).2.2 } = .ok (core.get .object) _ :=
    objectClass_eq hc
  unfold defineModule defineConstant
  rw [Run.bind_of_ok (Run.get_apply c)]
  dsimp only
  rw [Run.bind_of_ok (Run.set_apply c _), bind_assoc, Run.bind_of_ok hobject]
  rfl

theorem defineConstant_eq (hc : c.core = some core) (name : String) (value : Value) :
    (defineConstant name value : Run ε H _) c =
      .ok () (c.binding (core.get .object) name value) := by
  unfold defineConstant
  rw [Run.bind_of_ok (objectClass_eq hc)]
  rfl

/-- What a definition comes to: a module to be made, a constant to be bound, or a superclass that is
not registered. -/
inductive Plan where
  | make (made : Module)
  | bind (name : String) (value : Value)
  | refuse (superclass : String)

def Definition.plan (c : Context H) (object : Ref .module) : Definition -> Plan
  | .cls name superclass => .make (c.heap.subclass name (superclass.getD object))
  | .clsUnder name superclass =>
      match c.class? superclass with
      | some parent => .make (c.heap.subclass name parent)
      | none => .refuse superclass
  | .module name => .make { name := name, isClass := false }
  | .constant name value => .bind name value

theorem Definition.plan_clsUnder_of_some {superclass : String} {parent : Ref .module}
    (h : c.class? superclass = some parent) (object : Ref .module) (name : String) :
    (Definition.clsUnder name superclass).plan c object = .make (c.heap.subclass name parent) := by
  simp only [plan, h]

theorem Definition.plan_clsUnder_of_none {superclass : String} (h : c.class? superclass = none)
    (object : Ref .module) (name : String) :
    (Definition.clsUnder name superclass).plan c object = .refuse superclass := by
  simp only [plan, h]

def Plan.outcome (c : Context H) (object : Ref .module) :
    Plan -> EStateM.Result (Exit Failure) (Context H) Deed
  | .make made => .ok (.made made.name made.isClass c.heap.next) (c.making object made)
  | .bind name value => .ok (.bound name value) (c.binding object name value)
  | .refuse superclass =>
      .error (.raised (c.attach { cause := .unknownSuperclass superclass })) c

theorem Definition.perform_eq (hc : c.core = some core) (definition : Definition) :
    definition.perform c =
      (definition.plan c (core.get .object)).outcome c (core.get .object) := by
  cases definition with
  | cls name superclass => exact Run.bind_of_ok (defineClass_eq hc name superclass)
  | clsUnder name superclass =>
      have hlook : (defineClassUnder name superclass : Run Failure H _) c =
          (match c.class? superclass with
            | some parent => defineClass name (some parent)
            | none => failWith (.unknownSuperclass superclass) : Run Failure H _) c :=
        Run.bind_of_ok (Run.get_apply c)
      cases hparent : c.class? superclass with
      | none =>
          rw [hparent] at hlook
          rw [plan_clsUnder_of_none hparent]
          exact Run.bind_of_error hlook
      | some parent =>
          rw [hparent] at hlook
          dsimp only at hlook
          rw [defineClass_eq hc] at hlook
          rw [plan_clsUnder_of_some hparent]
          exact Run.bind_of_ok hlook
  | module name => exact Run.bind_of_ok (defineModule_eq hc name)
  | constant name value => exact Run.bind_of_ok (defineConstant_eq hc name value)

theorem Definition.of_perform_ok {definition : Definition} {deed : Deed} {d : Context H}
    (hc : c.core = some core) (h : definition.perform c = .ok deed d) :
    (∃ made, definition.plan c (core.get .object) = .make made ∧
      deed = .made made.name made.isClass c.heap.next ∧ d = c.making (core.get .object) made) ∨
    ∃ name value, deed = .bound name value ∧ d = c.binding (core.get .object) name value := by
  rw [definition.perform_eq hc] at h
  cases hplan : definition.plan c (core.get .object) with
  | make made =>
      rw [hplan] at h
      cases h
      exact Or.inl ⟨made, rfl, rfl, rfl⟩
  | bind name value =>
      rw [hplan] at h
      cases h
      exact Or.inr ⟨name, value, rfl, rfl⟩
  | refuse superclass =>
      rw [hplan] at h
      cases h

theorem Definition.of_perform_error {definition : Definition} {exit : Exit Failure} {d : Context H}
    (hc : c.core = some core) (h : definition.perform c = .error exit d) : d = c := by
  rw [definition.perform_eq hc] at h
  cases hplan : definition.plan c (core.get .object) with
  | make made =>
      rw [hplan] at h
      cases h
  | bind name value =>
      rw [hplan] at h
      cases h
  | refuse superclass =>
      rw [hplan] at h
      cases h
      rfl

/-- Only a class that is to be defined under a name which no class is registered by is refused. -/
theorem Definition.plan_refuse {object : Ref .module} {definition : Definition}
    {superclass : String} (h : definition.plan c object = .refuse superclass) :
    ∃ name, definition = .clsUnder name superclass ∧ c.class? superclass = none := by
  cases definition with
  | cls name superclass => cases h
  | clsUnder name other =>
      cases hparent : c.class? other with
      | none =>
          rw [plan_clsUnder_of_none hparent] at h
          cases h
          exact ⟨name, rfl, hparent⟩
      | some parent =>
          rw [plan_clsUnder_of_some hparent] at h
          cases h
  | module name => cases h
  | constant name value => cases h

/-- What is made fits into the heap, if a superclass that is given is a class. -/
theorem Definition.plan_make {object : Ref .module} {definition : Definition} {made : Module}
    (h : definition.plan c object = .make made) (hobject : c.heap.isClass object = true)
    (hgiven : definition.Given c) : c.heap.Fits made := by
  have hsubclass : ∀ name parent, c.heap.isClass parent = true ->
      c.heap.Fits (c.heap.subclass name parent) :=
    fun name parent hparent => Or.inr ⟨rfl, parent, hparent, rfl⟩
  cases definition with
  | cls name superclass =>
      cases h
      cases superclass with
      | none => exact hsubclass name object hobject
      | some parent => exact hsubclass name parent hgiven
  | clsUnder name superclass =>
      cases hparent : c.class? superclass with
      | none =>
          rw [plan_clsUnder_of_none hparent] at h
          cases h
      | some parent =>
          rw [plan_clsUnder_of_some hparent] at h
          cases h
          exact hsubclass name parent (Option.filter_eq_some_iff.mp hparent).2
  | module name =>
      cases h
      exact Or.inl ⟨rfl, rfl⟩
  | constant name value => cases h

end Performing

/-! ## Runs of definitions -/

/-- What a step in between leaves alone: modules, what is registered, the core classes, and the
classes of objects. -/
structure Context.KeepsDefinitions (c d : Context H) : Prop where
  modules : d.heap.modules = c.heap.modules
  registry : d.registry = c.registry
  core : d.core = c.core
  objects : ∀ ref, c.heap.objects.Has ref ->
    d.heap.objects.Has ref ∧ d.heap.objectClass ref = c.heap.objectClass ref

/-- A run of definitions that are allowed where they are made, with anything in between that leaves
them alone; and what those that were carried out did, the latest first. -/
inductive Context.Defines (allowed : Context H -> Definition -> Prop) (c : Context H) :
    List Deed -> Context H -> Prop where
  | none : Defines allowed c [] c
  | done {deeds : List Deed} {d e : Context H} {definition : Definition} {deed : Deed} :
      Defines allowed c deeds d -> allowed d definition -> definition.perform d = .ok deed e ->
      Defines allowed c (deed :: deeds) e
  | refused {deeds : List Deed} {d e : Context H} {definition : Definition} {exit : Exit Failure} :
      Defines allowed c deeds d -> allowed d definition -> definition.perform d = .error exit e ->
      Defines allowed c deeds e
  | between {deeds : List Deed} {d e : Context H} :
      Defines allowed c deeds d -> d.KeepsDefinitions e -> Defines allowed c deeds e

structure Context.Classed (c : Context H) (core : Catalogue CoreClass) : Prop where
  core_eq : c.core = some core
  tree : c.heap.Tree (core.get .object)

section Runs

variable {c d : Context H} {core : Catalogue CoreClass} {made : Module}

theorem Heap.retains_of_eq {heap later : Heap} (hmodules : later.modules = heap.modules)
    (hobjects : ∀ ref, heap.objects.Has ref ->
      later.objects.Has ref ∧ later.objectClass ref = heap.objectClass ref) :
    heap.Retains later where
  modules ref href := by
    rw [hmodules]
    exact href
  name ref _ := congrArg Module.name (Heap.module_of_modules hmodules ref)
  sort ref _ := Heap.isClass_of_modules hmodules ref
  ancestors ref _ := congrArg Module.ancestors (Heap.module_of_modules hmodules ref)
  objects := hobjects

theorem Context.retains_making (c : Context H) (object : Ref .module) (made : Module) :
    c.heap.Retains (c.making object made).heap :=
  (c.heap.retains_adding made).trans (Heap.retains_setConstant _ _ _ _)

theorem Context.Classed.making (hc : c.Classed core) (hfits : c.heap.Fits made) :
    (c.making (core.get .object) made).Classed core where
  core_eq := hc.core_eq
  tree := (hc.tree.adding hfits).setConstant _ _ _

theorem Context.Classed.binding (hc : c.Classed core) (name : String) (value : Value) :
    (c.binding (core.get .object) name value).Classed core where
  core_eq := hc.core_eq
  tree := hc.tree.setConstant _ _ _

theorem Context.Classed.between (hc : c.Classed core) (h : c.KeepsDefinitions d) :
    d.Classed core where
  core_eq := h.core.trans hc.core_eq
  tree := hc.tree.of_modules h.modules

/-- Along a run of definitions the classes stay a tree, what was there stays as it was, and what is
made was not there before. -/
theorem Context.Defines.classed (hc : c.Classed core) {deeds : List Deed}
    (h : c.Defines Definition.Given deeds d) :
    d.Classed core ∧ c.heap.Retains d.heap ∧
      ∀ name isClass made, .made name isClass made ∈ deeds -> ¬ c.heap.modules.Has made := by
  induction h with
  | none => exact ⟨hc, .refl _, by simp⟩
  | @done deeds d e definition deed _ hgiven hperform ih =>
      obtain ⟨hd, hretains, hfresh⟩ := ih
      rcases definition.of_perform_ok hd.core_eq hperform with
        ⟨made, hplan, rfl, rfl⟩ | ⟨name, value, rfl, rfl⟩
      · have hfits := Definition.plan_make hplan hd.tree.root_class hgiven
        refine ⟨hd.making hfits, hretains.trans (d.retains_making _ made), ?_⟩
        intro name isClass other hmem
        rcases List.mem_cons.mp hmem with hnew | hold
        · cases hnew
          exact fun href => d.heap.not_has_next (hretains.modules _ href)
        · exact hfresh name isClass other hold
      · refine ⟨hd.binding name value,
          hretains.trans (Heap.retains_setConstant _ _ _ _), fun name isClass other hmem => ?_⟩
        rcases List.mem_cons.mp hmem with hnew | hold
        · cases hnew
        · exact hfresh name isClass other hold
  | @refused deeds d e definition exit _ _ hperform ih =>
      rw [definition.of_perform_error ih.1.core_eq hperform]
      exact ih
  | between _ hbetween ih =>
      obtain ⟨hd, hretains, hfresh⟩ := ih
      have hkept := Heap.retains_of_eq hbetween.modules hbetween.objects
      exact ⟨hd.between hbetween, hretains.trans hkept, hfresh⟩

end Runs

/-! ## The start -/

theorem Context.classed_start (config : Config) (errors : ErrorStream) (host : H.State)
    (processId : Int64) :
    ((Context.new config errors host).start processId).Classed Builtin.defined.1 := by
  obtain ⟨hcore, _, _, hmodules⟩ :=
    start_defined (c := Context.new config errors host) rfl rfl rfl processId
  exact ⟨hcore, Builtin.tree_defined.of_modules hmodules⟩

/-! ## The classes of values -/

/-- The module or object that a value refers to was handed out by the heap. -/
def Heap.Knows (heap : Heap) : Value -> Prop
  | .object ref => heap.objects.Has ref
  | .module ref => heap.modules.Has ref
  | _ => True

def Heap.classAmong (heap : Heap) (core : Catalogue CoreClass) : Value -> Ref .module
  | .nil => core.get .nilClass
  | .bool true => core.get .trueClass
  | .bool false => core.get .falseClass
  | .int _ => core.get .integer
  | .float _ => core.get .float
  | .text _ => core.get .string
  | .array _ => core.get .array
  | .object ref => heap.objectClass ref
  | .module ref => core.get (if heap.isClass ref then .cls else .module)

theorem classOf_eq {c : Context H} {core : Catalogue CoreClass} (hc : c.core = some core)
    (value : Value) : (classOf value : Run ε H _) c = .ok (c.heap.classAmong core value) c := by
  rw [classOf, Run.bind_of_ok (coreClasses_eq hc), Run.bind_of_ok (Run.get_apply c)]
  cases value with
  | bool b => cases b <;> rfl
  | _ => rfl

/-- A value keeps its class when modules and objects are retained. -/
theorem Heap.Retains.classAmong {heap later : Heap} (h : heap.Retains later)
    (core : Catalogue CoreClass) {value : Value} (hvalue : heap.Knows value) :
    later.classAmong core value = heap.classAmong core value := by
  cases value with
  | object ref => exact (h.objects ref hvalue).2
  | module ref => simp only [Heap.classAmong, h.sort ref hvalue]
  | bool b => cases b <;> rfl
  | _ => rfl

/-! ## The tree of classes -/

/-- Whatever is defined, the classes stay a tree under `Object`: the links end, inheritance is a
partial order, and later definitions leave the modules that are there as they are. -/
theorem classes_form_tree (config : Config) (errors : ErrorStream) (host : H.State)
    (processId : Int64) {deeds : List Deed} {c : Context H}
    (h : ((Context.new config errors host).start processId).Defines Definition.Given deeds c) :
    ∃ object, (objectClass : Run Failure H _) c = .ok object c ∧ c.heap.Tree object ∧
      (∀ ref, ∃ supers, c.heap.Superclasses ref supers) ∧
      -- Going up ends within as many steps as modules were made before.
      (∀ ref steps, ref.index < steps ->
        (∀ ancestor,
          c.heap.searchUp (fun m => if m = ancestor then some () else none) steps ref =
            some (if c.heap.inheritsFrom ref ancestor = true then some () else none)) ∧
        ∀ name, c.heap.searchUp (fun m => c.heap.constant? m name) steps ref =
          some (c.heap.inheritedConstant? ref name)) ∧
      (∀ a, c.heap.inheritsFrom a a = true) ∧
      (∀ a b e, c.heap.inheritsFrom a b = true -> c.heap.inheritsFrom b e = true ->
        c.heap.inheritsFrom a e = true) ∧
      (∀ a b, c.heap.inheritsFrom a b = true -> c.heap.inheritsFrom b a = true -> a = b) ∧
      (∀ name cls, c.class? name = some cls -> c.heap.inheritsFrom cls object = true) ∧
      ∀ later d, c.Defines Definition.Given later d ->
        c.heap.Retains d.heap ∧
        (∀ ref, c.heap.modules.Has ref -> ∀ supers,
          d.heap.Superclasses ref supers ↔ c.heap.Superclasses ref supers) ∧
        (∀ value, c.heap.Knows value -> ∃ cls,
          (classOf value : Run Failure H _) c = .ok cls c ∧
            (classOf value : Run Failure H _) d = .ok cls d) ∧
        ∀ name isClass made, .made name isClass made ∈ later -> ¬ c.heap.modules.Has made := by
  obtain ⟨hc, _, _⟩ := h.classed (Context.classed_start config errors host processId)
  have hlinked := hc.tree.linked
  refine ⟨Builtin.defined.1.get .object, objectClass_eq hc.core_eq, hc.tree,
    fun ref => ⟨_, hlinked.superclasses ref⟩, fun ref steps hsteps => ⟨?_, fun name => ?_⟩,
    Heap.Linked.inheritsFrom_refl, fun _ _ _ => hlinked.inheritsFrom_trans,
    fun _ _ => hlinked.inheritsFrom_antisymm, fun name cls hcls => ?_, fun later d hlater => ?_⟩
  · exact hlinked.searchUp_inheritsFrom hsteps
  · exact hlinked.searchUp_eq _ hsteps
  · have hclass := (Option.filter_eq_some_iff.mp hcls).2
    exact hc.tree.rooted cls hclass
  · obtain ⟨hd, hretains, hfresh⟩ := hlater.classed hc
    refine ⟨hretains, fun ref href supers => ?_, fun value hvalue => ?_, hfresh⟩
    · rw [hd.tree.linked.superclasses_iff, hlinked.superclasses_iff, hretains.ancestors ref href]
    · have hlater := classOf_eq (ε := Failure) hd.core_eq value
      rw [hretains.classAmong _ hvalue] at hlater
      exact ⟨_, classOf_eq hc.core_eq value, hlater⟩

theorem Run.eq_ok_of_answer? {run : Run ε H α} {c : Context H} {a : α}
    (h : run.answer? c = some a) : run c = .ok a (run.after c) := by
  unfold answer? at h
  unfold after
  cases hrun : run c with
  | ok b d =>
      rw [hrun] at h
      cases h
      rfl
  | error exit d =>
      rw [hrun] at h
      cases h

theorem Context.Defines.perform {allowed : Context H -> Definition -> Prop} {c d : Context H}
    {deeds : List Deed} (h : c.Defines allowed deeds d) (definition : Definition) {deed : Deed}
    (hallowed : allowed d definition) (hdeed : definition.perform.answer? d = some deed) :
    c.Defines allowed (deed :: deeds) (definition.perform.after d) :=
  .done h hallowed (Run.eq_ok_of_answer? hdeed)

/-- `Object` is defined again as a module, and `Animal` as a class under the class of that name. -/
theorem classes_form_tree_reusing :
    let start : Context Bare := (Context.new {} .silent ()).start 0
    let c := (Definition.module "Object").perform.after
      ((Definition.cls "Animal" none).perform.after start)
    let d := (Definition.clsUnder "Animal" "Animal").perform.after c
    ∃ object, (objectClass : Run Failure Bare _) c = .ok object c ∧
      c.class? "Object" = none ∧ c.class? "Animal" = some ⟨31⟩ ∧ d.class? "Animal" = some ⟨33⟩ ∧
      d.heap.superclass? ⟨33⟩ = some ⟨31⟩ ∧ c.heap.inheritsFrom ⟨31⟩ object = true ∧
      c.heap.Retains d.heap ∧ ¬ c.heap.modules.Has ⟨33⟩ := by
  intro start c d
  have hearlier : start.Defines Definition.Given
      [.made "Object" false ⟨32⟩, .made "Animal" true ⟨31⟩] c :=
    (Context.Defines.none.perform (.cls "Animal" none) trivial (by decide +kernel)).perform
      (.module "Object") trivial (by decide +kernel)
  have hlater : c.Defines Definition.Given [.made "Animal" true ⟨33⟩] d :=
    Context.Defines.none.perform (.clsUnder "Animal" "Animal") trivial (by decide +kernel)
  have hanimal : c.class? "Animal" = some ⟨31⟩ := by decide +kernel
  have hobject : c.class? "Object" = none := by decide +kernel
  have hother : d.class? "Animal" = some ⟨33⟩ := by decide +kernel
  have hunder : d.heap.superclass? ⟨33⟩ = some ⟨31⟩ := by decide +kernel
  clear_value c d
  obtain ⟨object, hroot, _, _, _, _, _, _, hclasses, hkept⟩ :=
    classes_form_tree (H := Bare) {} .silent () 0 hearlier
  obtain ⟨hretains, _, _, hfresh⟩ := hkept _ d hlater
  exact ⟨object, hroot, hobject, hanimal, hother, hunder, hclasses "Animal" _ hanimal, hretains,
    hfresh "Animal" true _ (by simp)⟩

end ExecutionContext
