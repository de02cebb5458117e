import ExecutionContext.Proofs.Definitions

/-! # The registry and the constants of `Object`

Names of classes and modules stand in two tables, the registry and the constants of `Object`. The
start fills both, and afterwards each definition writes to one or both. So both tables say what the
latest definition of a name did, or else what the start did, whatever the order in which the start
walked the registry.
-/

namespace ExecutionContext

variable {H : Host}

/-! ## What definitions bind -/

namespace Deed

def name : Deed -> String
  | .made name _ _ => name
  | .bound name _ => name

def module? (name : String) : Deed -> Option (Ref .module)
  | .made other _ module => if other = name then some module else none
  | .bound _ _ => none

def value? (name : String) : Deed -> Option Value
  | .made other _ module => if other = name then some (.module module) else none
  | .bound other value => if other = name then some value else none

/-- A name whose latest deed binds no value is bound to the module that it stands for. -/
theorem findSome?_value? {deeds : List Deed} {name : String}
    (h : ∀ value, deeds.find? (fun deed => decide (deed.name = name)) ≠ some (.bound name value)) :
    deeds.findSome? (value? name) = (deeds.findSome? (module? name)).map Value.module := by
  induction deeds with
  | nil => rfl
  | cons deed deeds ih =>
      by_cases hname : deed.name = name
      · cases deed with
        | made other isClass module =>
            have hother : other = name := hname
            simp [value?, module?, hother]
        | bound other value =>
            have hother : other = name := hname
            exact absurd (by simp [Deed.name, hother]) (h value)
      · have hrest := ih fun value hlatest => h value (by simp [hname, hlatest])
        have hvalue : value? name deed = none := by
          cases deed <;> exact if_neg hname
        have hmodule : module? name deed = none := by
          cases deed with
          | made _ _ _ => exact if_neg hname
          | bound _ _ => rfl
        rw [List.findSome?_cons, List.findSome?_cons, hvalue, hmodule]
        exact hrest

end Deed

/-- Both tables of names say what the latest deed did, or what was there at the start; and what was
made is of the sort that it was made as. -/
structure Context.Named (c : Context H) (core : Catalogue CoreClass)
    (builtin? : String -> Option (Ref .module)) (deeds : List Deed) : Prop where
  core_eq : c.core = some core
  object : c.heap.modules.Has (core.get .object)
  module? : ∀ name, c.module? name = (deeds.findSome? (Deed.module? name)).or (builtin? name)
  constant? : ∀ name, c.heap.constant? (core.get .object) name =
    (deeds.findSome? (Deed.value? name)).or ((builtin? name).map Value.module)
  sort : ∀ name isClass made, .made name isClass made ∈ deeds ->
    c.heap.modules.Has made ∧ c.heap.isClass made = isClass
  nodup : c.registry.keys.Nodup

namespace Context.Named

variable {c d : Context H} {core : Catalogue CoreClass} {builtin? : String -> Option (Ref .module)}
  {deeds : List Deed}

theorem topConstant? (h : c.Named core builtin? deeds) (name : String) :
    c.topConstant? name =
      (deeds.findSome? (Deed.value? name)).or ((builtin? name).map Value.module) := by
  rw [Context.topConstant?, h.core_eq]
  exact h.constant? name

theorem making (h : c.Named core builtin? deeds) (made : Module) :
    (c.making (core.get .object) made).Named core builtin?
      (.made made.name made.isClass c.heap.next :: deeds) := by
  have hretains := c.retains_making (core.get .object) made
  have hobject := (c.heap.retains_adding made).modules _ h.object
  refine ⟨h.core_eq, hretains.modules _ h.object, fun name => ?_, fun name => ?_, ?_,
    Table.nodup_keys_insert h.nodup _ _⟩
  · have hget : (c.making (core.get .object) made).module? name =
        if made.name = name then some c.heap.next else c.module? name :=
      Table.get?_insert c.registry _ _ _
    rw [hget, h.module?, List.findSome?_cons, Deed.module?]
    by_cases hname : made.name = name <;> simp [hname]
  · have hget : (c.making (core.get .object) made).heap.constant? (core.get .object) name =
        if made.name = name then some (.module c.heap.next)
        else (c.heap.adding made).constant? (core.get .object) name :=
      Heap.constant?_setConstant hobject _ _ _
    have hold : (c.heap.adding made).constant? (core.get .object) name =
        c.heap.constant? (core.get .object) name := by
      rw [Heap.constant?, Heap.module_adding_of_has h.object]
      rfl
    rw [hget, hold, h.constant?, List.findSome?_cons, Deed.value?]
    by_cases hname : made.name = name <;> simp [hname]
  · intro name isClass other hmem
    rcases List.mem_cons.mp hmem with hnew | hold
    · cases hnew
      have hhas : (c.heap.adding made).modules.Has c.heap.next :=
        Heap.has_adding_iff.mpr (Or.inr rfl)
      refine ⟨(Heap.retains_setConstant _ _ _ _).modules _ hhas, ?_⟩
      have hsort : (c.making (core.get .object) made).heap.isClass c.heap.next =
          (c.heap.adding made).isClass c.heap.next := Heap.isClass_setConstant _ _ _ _ _
      rw [hsort, Heap.isClass, Heap.module_adding_next]
    · obtain ⟨hhas, hsort⟩ := h.sort name isClass other hold
      exact ⟨hretains.modules _ hhas, (hretains.sort _ hhas).trans hsort⟩

theorem binding (h : c.Named core builtin? deeds) (name : String) (value : Value) :
    (c.binding (core.get .object) name value).Named core builtin?
      (.bound name value :: deeds) := by
  have hretains := c.heap.retains_setConstant (core.get .object) name value
  refine ⟨h.core_eq, hretains.modules _ h.object, fun other => ?_, fun other => ?_, ?_, h.nodup⟩
  · rw [List.findSome?_cons]
    exact h.module? other
  · have hget : (c.binding (core.get .object) name value).heap.constant? (core.get .object) other =
        if name = other then some value else c.heap.constant? (core.get .object) other :=
      Heap.constant?_setConstant h.object _ _ _
    rw [hget, h.constant?, List.findSome?_cons, Deed.value?]
    by_cases hname : name = other <;> simp [hname]
  · intro other isClass made hmem
    rcases List.mem_cons.mp hmem with hnew | hold
    · cases hnew
    · obtain ⟨hhas, hsort⟩ := h.sort other isClass made hold
      exact ⟨hretains.modules _ hhas, (hretains.sort _ hhas).trans hsort⟩

theorem between (h : c.Named core builtin? deeds) (hbetween : c.KeepsDefinitions d) :
    d.Named core builtin? deeds := by
  have hretains := Heap.retains_of_eq hbetween.modules hbetween.objects
  refine ⟨hbetween.core.trans h.core_eq, hretains.modules _ h.object, fun name => ?_,
    fun name => ?_, fun name isClass made hmem => ?_, ?_⟩
  · rw [← h.module?, Context.module?, hbetween.registry]
    rfl
  · rw [← h.constant?, Heap.constant?_of_modules hbetween.modules]
  · obtain ⟨hhas, hsort⟩ := h.sort name isClass made hmem
    exact ⟨hretains.modules _ hhas, (hretains.sort _ hhas).trans hsort⟩
  · rw [hbetween.registry]
    exact h.nodup

theorem defines {allowed : Context H -> Definition -> Prop} (h : c.Named core builtin? [])
    (hrun : c.Defines allowed deeds d) : d.Named core builtin? deeds := by
  induction hrun with
  | none => exact h
  | @done deeds d e definition deed _ _ hperform ih =>
      rcases definition.of_perform_ok ih.core_eq hperform with
        ⟨made, _, rfl, rfl⟩ | ⟨name, value, rfl, rfl⟩
      · exact ih.making made
      · exact ih.binding name value
  | @refused deeds d e definition exit _ _ hperform ih =>
      rw [definition.of_perform_error ih.core_eq hperform]
      exact ih
  | between _ hbetween ih => exact ih.between hbetween

end Context.Named

/-! ## The same definitions after any start -/

/-- Contexts whose classes and names are the same, up to the order of constants. -/
structure Context.SameNames (c d : Context H) : Prop where
  registry : d.registry = c.registry
  core : d.core = c.core
  heap : c.heap.Alike d.heap

namespace Context.SameNames

variable {c d : Context H} {core : Catalogue CoreClass}

theorem class? (h : c.SameNames d) (name : String) : d.class? name = c.class? name := by
  have hsort : d.heap.isClass = c.heap.isClass := funext h.heap.isClass
  rw [Context.class?, Context.class?, Registry.class?, Registry.class?, h.registry, hsort]

theorem module? (h : c.SameNames d) (name : String) : d.module? name = c.module? name := by
  rw [Context.module?, Context.module?, h.registry]

theorem topConstant? (h : c.SameNames d) (name : String) :
    d.topConstant? name = c.topConstant? name := by
  have hconstant : ∀ ref, d.heap.constant? ref name = c.heap.constant? ref name :=
    fun ref => h.heap.constant? ref name
  rw [Context.topConstant?, Context.topConstant?, h.core]
  simp only [hconstant]

theorem plan (h : c.SameNames d) (object : Ref .module) (definition : Definition) :
    definition.plan d object = definition.plan c object := by
  have hsubclass : ∀ name parent, d.heap.subclass name parent = c.heap.subclass name parent := by
    intro name parent
    rw [Heap.subclass, h.heap.ancestors]
    rfl
  cases definition with
  | cls name superclass => simp only [Definition.plan, hsubclass]
  | clsUnder name superclass => simp only [Definition.plan, hsubclass, h.class?]
  | module name => rfl
  | constant name value => rfl

theorem perform (h : c.SameNames d) (hc : c.core = some core) (definition : Definition) :
    definition.perform.answer? d = definition.perform.answer? c ∧
      (definition.perform.after c).SameNames (definition.perform.after d) ∧
      (definition.perform.after c).core = some core := by
  have hd : d.core = some core := h.core.trans hc
  unfold Run.answer? Run.after
  rw [definition.perform_eq hc, definition.perform_eq hd, h.plan]
  cases definition.plan c (core.get .object) with
  | make made =>
      refine ⟨?_, ⟨?_, h.core, ?_⟩, hc⟩
      · show some (Deed.made _ _ d.heap.next) = some (Deed.made _ _ c.heap.next)
        rw [h.heap.next]
      · show Table.insert d.registry _ d.heap.next = Table.insert c.registry _ c.heap.next
        rw [h.registry, h.heap.next]
      · have hmade := (h.heap.adding made).setConstant (core.get .object) made.name
          (.module c.heap.next)
        show Heap.Alike _ ((d.heap.adding made).setConstant _ _ (.module d.heap.next))
        rw [h.heap.next]
        exact hmade
  | bind name value => exact ⟨rfl, ⟨h.registry, h.core, h.heap.setConstant _ _ _⟩, hc⟩
  | refuse superclass => exact ⟨rfl, h, hc⟩

end Context.SameNames

/-- Perform definitions one after the other: what each did, if it was carried out, and the context
that is left. -/
def Definition.performAll : List Definition -> Context H -> List (Option Deed) × Context H
  | [], c => ([], c)
  | definition :: definitions, c =>
      let (deeds, d) := performAll definitions (definition.perform.after c)
      (definition.perform.answer? c :: deeds, d)

theorem Definition.performAll_sameNames {c d : Context H} {core : Catalogue CoreClass}
    (h : c.SameNames d) (hc : c.core = some core) (definitions : List Definition) :
    (performAll definitions d).1 = (performAll definitions c).1 ∧
      (performAll definitions c).2.SameNames (performAll definitions d).2 := by
  induction definitions generalizing c d with
  | nil => exact ⟨rfl, h⟩
  | cons definition definitions ih =>
      obtain ⟨hdeed, hleft, hcore⟩ := h.perform hc definition
      obtain ⟨hdeeds, hlast⟩ := ih hleft hcore
      simp only [performAll, hdeed, hdeeds]
      exact ⟨trivial, hlast⟩

/-! ## Starts that walk the registry in any order -/

section Walking

variable {walk : List (String × Ref .module) -> List (String × Ref .module)}
  (config : Config) (errors : ErrorStream) (host : H.State) (processId : Int64)

theorem builtin?_startWalking (hwalk : ∀ entries, (walk entries).Perm entries) (name : String) :
    ((Context.new config errors host).startWalking walk processId).builtin? name =
      Table.find Builtin.named name := by
  obtain ⟨hcore, hexceptions, _⟩ := startWalking_defined
    (c := Context.new config errors host) rfl rfl rfl walk processId
  obtain ⟨hcore', hexceptions', _⟩ := Builtin.definedWalking_alike hwalk
  unfold Context.builtin? Context.builtins
  rw [hcore, hexceptions, hcore', hexceptions']
  rfl

theorem named_startWalking (hwalk : ∀ entries, (walk entries).Perm entries) :
    ((Context.new config errors host).startWalking walk processId).Named Builtin.defined.1
      ((Context.new config errors host).startWalking walk processId).builtin? [] := by
  obtain ⟨hcore, _, hregistry, hmodules⟩ := startWalking_defined
    (c := Context.new config errors host) rfl rfl rfl walk processId
  obtain ⟨hcore', _, hregistry', halike⟩ := Builtin.definedWalking_alike hwalk
  rw [hcore'] at hcore
  rw [hregistry'] at hregistry
  have hheap := halike.trans (.of_modules hmodules)
  have hobject := Heap.has_of_isClass Builtin.tree_defined.root_class
  have hbuiltin := builtin?_startWalking config errors host processId hwalk
  refine ⟨hcore, hheap.has.mpr hobject, fun name => ?_, fun name => ?_, by simp, ?_⟩
  · rw [Context.module?, hregistry, Builtin.get?_defined, hbuiltin]
    rfl
  · rw [hheap.constant?, Builtin.constant?_defined, hbuiltin]
    rfl
  · rw [hregistry]
    exact Builtin.nodup_defined

theorem start_sameNames (hwalk : ∀ entries, (walk entries).Perm entries) :
    ((Context.new config errors host).start processId).SameNames
      ((Context.new config errors host).startWalking walk processId) := by
  obtain ⟨hcore, _, hregistry, hmodules⟩ := startWalking_defined
    (c := Context.new config errors host) rfl rfl rfl walk processId
  obtain ⟨hcore', _, hregistry', hmodules'⟩ := start_defined
    (c := Context.new config errors host) rfl rfl rfl processId
  obtain ⟨hsame, _, hnames, halike⟩ := Builtin.definedWalking_alike hwalk
  refine ⟨?_, ?_, ?_⟩
  · rw [hregistry, hregistry', hnames]
  · rw [hcore, hcore', hsame]
  · exact (Heap.Alike.of_modules hmodules'.symm).trans (halike.trans (.of_modules hmodules))

/-- Whatever is defined, and in whichever order the start walks the registry, the registry and the
constants of `Object` agree on each name whose latest definition bound no mere value. -/
theorem name_tables_agree (hwalk : ∀ entries, (walk entries).Perm entries) :
    let start := (Context.new config errors host).startWalking walk processId
    (∀ deeds c, start.Defines (fun _ _ => True) deeds c ->
      -- The module is that of the latest definition, and the constant is what the latest definition
      -- of either kind bound.
      (∀ name, c.module? name =
        (deeds.findSome? (Deed.module? name)).or (start.builtin? name)) ∧
      (∀ name, c.topConstant? name =
        (deeds.findSome? (Deed.value? name)).or ((start.builtin? name).map Value.module)) ∧
      (∀ name, (∀ value, deeds.find? (fun deed => decide (deed.name = name)) ≠
          some (.bound name value)) ->
        c.topConstant? name = (c.module? name).map Value.module) ∧
      (∀ name cls, c.class? name = some cls ↔
        c.module? name = some cls ∧ c.heap.isClass cls = true) ∧
      (∀ name isClass made, .made name isClass made ∈ deeds -> c.heap.isClass made = isClass) ∧
      c.registry.names.Pairwise (· < ·) ∧
      (∀ name, name ∈ c.registry.names ↔ (c.module? name).isSome = true) ∧
      -- Only a class under a name by which no class is registered is refused.
      ∀ definition : Definition, (∃ deed d, definition.perform c = .ok deed d) ∨
        ∃ name superclass exit, definition = .clsUnder name superclass ∧
          c.class? superclass = none ∧ definition.perform c = .error (.raised exit) c) ∧
    (∀ name, start.builtin? name =
      ((Context.new config errors host).start processId).builtin? name) ∧
    ∀ definitions,
      let walked := Definition.performAll definitions start
      let plain := Definition.performAll definitions
        ((Context.new config errors host).start processId)
      walked.1 = plain.1 ∧ walked.2.registry.names = plain.2.registry.names ∧
        ∀ name, walked.2.module? name = plain.2.module? name ∧
          walked.2.class? name = plain.2.class? name ∧
          walked.2.topConstant? name = plain.2.topConstant? name := by
  intro start
  refine ⟨fun deeds c hrun => ?_, fun name => ?_, fun definitions => ?_⟩
  · have hnamed := (named_startWalking config errors host processId hwalk).defines hrun
    refine ⟨hnamed.module?, hnamed.topConstant?, fun name hlatest => ?_, fun name cls => ?_,
      fun name isClass made hmem => (hnamed.sort name isClass made hmem).2,
      Table.names_ascending hnamed.nodup, fun name => ?_, fun definition => ?_⟩
    · rw [hnamed.topConstant?, hnamed.module?, Deed.findSome?_value? hlatest, Option.map_or]
    · exact Option.filter_eq_some_iff
    · exact Table.mem_names c.registry name
    · rw [definition.perform_eq hnamed.core_eq]
      cases hplan : definition.plan c (Builtin.defined.1.get .object) with
      | make made => exact Or.inl ⟨_, _, rfl⟩
      | bind name value => exact Or.inl ⟨_, _, rfl⟩
      | refuse superclass =>
          obtain ⟨name, hdefinition, hnone⟩ := Definition.plan_refuse hplan
          exact Or.inr ⟨name, superclass, _, hdefinition, hnone, rfl⟩
  · have hplain := builtin?_startWalking config errors host processId
      (fun entries => List.Perm.refl (id entries)) name
    rw [Context.startWalking_id] at hplain
    exact (builtin?_startWalking config errors host processId hwalk name).trans hplain.symm
  · obtain ⟨hcore, _⟩ := start_defined (c := Context.new config errors host) rfl rfl rfl processId
    obtain ⟨hdeeds, hsame⟩ := Definition.performAll_sameNames
      (start_sameNames config errors host processId hwalk) hcore definitions
    exact ⟨hdeeds, congrArg Table.names hsame.registry, fun name =>
      ⟨hsame.module? name, hsame.class? name, hsame.topConstant? name⟩⟩

end Walking

/-- Walk the registry backwards, bind a value over a built-in module, and define a class. -/
theorem name_tables_agree_reversed :
    let start : Context Bare := (Context.new {} .silent ()).startWalking List.reverse 0
    let c := (Definition.cls "Animal" none).perform.after
      ((Definition.constant "Kernel" (.int 1)).perform.after start)
    c.topConstant? "Kernel" = some (.int 1) ∧ c.module? "Kernel" = start.builtin? "Kernel" ∧
      c.topConstant? "Animal" = (c.module? "Animal").map Value.module ∧
      c.module? "Animal" = some ⟨31⟩ ∧ c.heap.isClass ⟨31⟩ = true ∧
      c.registry.names.Pairwise (· < ·) ∧
      (Definition.performAll [.module "Kernel"] start).1 =
        (Definition.performAll [.module "Kernel"] (Context.bare)).1 := by
  intro start c
  have hrun : start.Defines (fun _ _ => True)
      [.made "Animal" true ⟨31⟩, .bound "Kernel" (.int 1)] c :=
    (Context.Defines.none.perform (.constant "Kernel" (.int 1)) trivial (by decide +kernel)).perform
      (.cls "Animal" none) trivial (by decide +kernel)
  obtain ⟨hruns, _, hsame⟩ := name_tables_agree (H := Bare) {} .silent () 0
    (fun entries => List.reverse_perm entries)
  clear_value c
  obtain ⟨hmodule, hconstant, hagree, _, hsort, hnames, _⟩ := hruns _ c hrun
  exact ⟨hconstant "Kernel", hmodule "Kernel", hagree "Animal" fun value => by simp [Deed.name],
    hmodule "Animal", hsort "Animal" true _ (by simp), hnames, (hsame [.module "Kernel"]).1⟩

end ExecutionContext
