import ExecutionContext.Proofs.ScopeSlots
import Mathlib.Logic.Function.Basic

/-! # Locals by name

A scope is written by name and keeps its values by slot. Read by name it is a map, and
the writes by name are updates of this map, since a name never leaves its slot. One
declaration is the exception: a special name declared in a scope without locals is not
found when it is looked for and has its own slot by the time it is added, so that it
stands twice and the value is stored where no name leads.
-/

namespace ExecutionContext

/-- What each name reads; none for a name that is no local. -/
abbrev Locals := String -> Option Value

namespace Locals

/-- The special locals added, as nil, unless they are there. -/
def withSpecials (locals : Locals) : Locals := fun name =>
  (locals name).or (if name ∈ Scope.specialNames then some .nil else none)

def write (locals : Locals) (name : String) (value : Value) : Locals :=
  Function.update locals name (some value)

/-- The name is special and not there yet: its declaration loses the value. -/
def Misplaces (locals : Locals) (name : String) : Prop :=
  name ∈ Scope.specialNames ∧ locals name = none

instance (locals : Locals) (name : String) : Decidable (locals.Misplaces name) :=
  inferInstanceAs (Decidable (_ ∧ _))

def declare (locals : Locals) (name : String) (value : Value) : Locals :=
  if locals.Misplaces name then locals.withSpecials else locals.withSpecials.write name value

def assign (locals : Locals) (name : String) (value : Value) : Locals :=
  if (locals name).isSome then locals.write name value else locals

theorem withSpecials_of_not_mem {name : String} (locals : Locals)
    (h : name ∉ Scope.specialNames) : locals.withSpecials name = locals name := by
  rw [withSpecials, if_neg h, Option.or_none]

theorem withSpecials_of_mem {name : String} {locals : Locals} (h : name ∈ Scope.specialNames) :
    locals.withSpecials name = some ((locals name).getD .nil) := by
  rw [withSpecials, if_pos h]
  cases locals name <;> rfl

/-- Beside the name that is declared, only special locals appear. -/
theorem declare_of_ne {name other : String} (locals : Locals) (h : other ≠ name) (value : Value) :
    locals.declare name value other = locals.withSpecials other := by
  unfold declare
  split
  · rfl
  · rw [write, Function.update_of_ne h]

end Locals

namespace Scope

variable {scope : Scope} {names : List String} {name other : String} {slot place : Nat}
  {value : Value}

/-! ## Slots and names -/

theorem slotOf?_eq_none_iff : scope.slotOf? name = none ↔ name ∉ scope.names := by
  simp only [slotOf?, List.findIdx?_eq_none_iff, decide_eq_false_iff_not]
  exact ⟨fun h hmem => h name hmem rfl, fun h other hother heq => h (heq ▸ hother)⟩

theorem lookup?_eq_none_iff : scope.lookup? name = none ↔ name ∉ scope.names := by
  rw [lookup?, Option.map_eq_none_iff, slotOf?_eq_none_iff]

theorem getElem?_of_slotOf? (h : scope.slotOf? name = some slot) :
    scope.names[slot]? = some name := by
  obtain ⟨hlt, hname, _⟩ := List.findIdx?_eq_some_iff_getElem.mp h
  rw [List.getElem?_eq_getElem hlt]
  exact congrArg some (of_decide_eq_true hname)

theorem slotOf?_ne (hname : scope.slotOf? name = some slot) (hother : scope.slotOf? other = some place)
    (hne : other ≠ name) : slot ≠ place := by
  rintro rfl
  have hsame := (getElem?_of_slotOf? hname).symm.trans (getElem?_of_slotOf? hother)
  exact hne (Option.some.inj hsame).symm

theorem assign_names (scope : Scope) (name : String) (value : Value) :
    (scope.assign name value).2.names = scope.names := by
  unfold assign
  split
  · rfl
  · rfl

def append (scope : Scope) (name : String) (value : Value) : Scope :=
  { names := scope.names ++ [name], values := scope.values ++ [value] }

/-- A name that is added at the end leads there, unless it has a slot before. -/
theorem slotOf?_append (scope : Scope) (name other : String) (value : Value) :
    (scope.append name value).slotOf? other =
      (scope.slotOf? other).or (if other = name then some scope.names.length else none) := by
  show (scope.names ++ [name]).findIdx? (fun entry => decide (entry = other)) = _
  rw [List.findIdx?_append]
  by_cases heq : other = name
  · simp [heq, slotOf?]
  · simp [heq, Ne.symm heq, slotOf?]

namespace Aligned

theorem slot_lt (h : scope.Aligned) (hslot : scope.slotOf? name = some slot) :
    slot < scope.values.length := by
  obtain ⟨hlt, _⟩ := List.findIdx?_eq_some_iff_getElem.mp hslot
  rw [← h.length_eq]
  exact hlt

/-! ## Assigning -/

theorem assign_answer (h : scope.Aligned) (name : String) (value : Value) :
    (scope.assign name value).1 = (scope.lookup? name).isSome := by
  unfold Scope.assign lookup?
  cases hslot : scope.slotOf? name with
  | none => rfl
  | some slot => exact decide_eq_true (h.slot_lt hslot)

theorem lookup?_set (h : scope.Aligned) (hslot : scope.slotOf? name = some slot) (value : Value) :
    (scope.set slot value).2.lookup? = Locals.write scope.lookup? name value := by
  funext other
  show (scope.slotOf? other).map (scope.set slot value).2.get = _
  by_cases heq : other = name
  · rw [heq, hslot, Locals.write, Function.update_self, Option.map_some]
    show some ((scope.values.set slot value).getD slot .nil) = some value
    rw [List.getD_eq_getElem?_getD, List.getElem?_set_self (h.slot_lt hslot), Option.getD_some]
  · rw [Locals.write, Function.update_of_ne heq, lookup?]
    cases hother : scope.slotOf? other with
    | none => rfl
    | some place =>
        show some ((scope.values.set slot value).getD place .nil) =
          some (scope.values.getD place .nil)
        rw [List.getD_eq_getElem?_getD, List.getElem?_set_ne (slotOf?_ne hslot hother heq),
          List.getD_eq_getElem?_getD]

theorem lookup?_assign (h : scope.Aligned) (name : String) (value : Value) :
    (scope.assign name value).2.lookup? = Locals.assign scope.lookup? name value := by
  unfold Scope.assign Locals.assign
  cases hslot : scope.slotOf? name with
  | none =>
      rw [if_neg]
      simp [lookup?, hslot]
  | some slot =>
      rw [if_pos]
      · exact h.lookup?_set hslot value
      · simp [lookup?, hslot]

/-! ## Declaring -/

theorem lookup?_ensureSpecial (h : scope.Aligned) :
    scope.ensureSpecial.lookup? = Locals.withSpecials scope.lookup? := by
  funext name
  by_cases hname : name ∈ specialNames
  · rw [Locals.withSpecials_of_mem hname]
    rcases h.names_eq with hnil | ⟨own, hown⟩
    · rw [h.eq_new hnil]
      obtain rfl | rfl : name = "_" ∨ name = "~" := by simpa [specialNames] using hname
      · rfl
      · rfl
    · have hfound : name ∈ scope.names := by
        rw [hown]
        exact List.mem_append_left own hname
      rw [ensureSpecial_of_names hown]
      cases hread : scope.lookup? name with
      | none => exact absurd hfound (lookup?_eq_none_iff.mp hread)
      | some value => rfl
  · rw [Locals.withSpecials_of_not_mem _ hname, lookup?, h.slotOf?_ensureSpecial hname, lookup?]
    exact congrArg (Option.map · _) (funext h.get_ensureSpecial)

/-- Only a scope without locals misplaces a name. -/
theorem misplaces_iff (h : scope.Aligned) :
    Locals.Misplaces scope.lookup? name ↔ scope.names = [] ∧ name ∈ specialNames := by
  unfold Locals.Misplaces
  rw [lookup?_eq_none_iff]
  constructor
  · rintro ⟨hname, hmissing⟩
    refine ⟨h.names_eq.resolve_right ?_, hname⟩
    rintro ⟨own, hown⟩
    exact hmissing (hown ▸ List.mem_append_left own hname)
  · rintro ⟨hnil, hname⟩
    exact ⟨hname, hnil ▸ List.not_mem_nil⟩

/-- A name that is not found is added behind the special names. -/
theorem declare_of_none (h : scope.Aligned) (hnone : scope.lookup? name = none) (value : Value) :
    scope.declare name value = scope.ensureSpecial.append name value := by
  have hanswer : (scope.assign name value).1 = false := by
    rw [h.assign_answer, hnone]
    rfl
  unfold Scope.declare
  cases hresult : scope.assign name value with
  | mk found assigned =>
      rw [hresult] at hanswer
      subst hanswer
      rfl

/-- A scope with a local has its special slots. -/
theorem ensureSpecial_of_isSome (h : scope.Aligned) (hsome : (scope.lookup? name).isSome = true) :
    scope.ensureSpecial = scope := by
  rcases h.names_eq with hnil | ⟨own, hown⟩
  · have hnone : scope.lookup? name = none := lookup?_eq_none_iff.mpr (hnil ▸ List.not_mem_nil)
    rw [hnone] at hsome
    cases hsome
  · exact ensureSpecial_of_names hown

/-- A local that is found is assigned. -/
theorem declare_of_some (h : scope.Aligned) (hsome : (scope.lookup? name).isSome = true)
    (value : Value) : scope.declare name value = (scope.assign name value).2 := by
  have hanswer : (scope.assign name value).1 = true := by rw [h.assign_answer, hsome]
  unfold Scope.declare
  cases hresult : scope.assign name value with
  | mk found assigned =>
      rw [hresult] at hanswer
      subst hanswer
      rfl

theorem lookup?_append (h : scope.Aligned) (name other : String) (value : Value) :
    (scope.append name value).lookup? other =
      (scope.lookup? other).or (if other = name then some value else none) := by
  rw [lookup?, slotOf?_append, lookup?]
  cases hslot : scope.slotOf? other with
  | some slot =>
      show some ((scope.values ++ [value]).getD slot .nil) = some (scope.values.getD slot .nil)
      rw [List.getD_eq_getElem?_getD, List.getElem?_append_left (h.slot_lt hslot),
        List.getD_eq_getElem?_getD]
  | none =>
      by_cases heq : other = name
      · simp [heq, Scope.get, append, h.length_eq]
      · simp [heq]

theorem lookup?_declare (h : scope.Aligned) (name : String) (value : Value) :
    (scope.declare name value).lookup? = Locals.declare scope.lookup? name value := by
  unfold Locals.declare
  cases hread : scope.lookup? name with
  | some old =>
      have hkept : ¬ Locals.Misplaces scope.lookup? name := by simp [Locals.Misplaces, hread]
      have hsome : (scope.lookup? name).isSome = true := by rw [hread]; rfl
      have hseeded : Locals.withSpecials scope.lookup? = scope.lookup? := by
        rw [← h.lookup?_ensureSpecial, h.ensureSpecial_of_isSome hsome]
      rw [if_neg hkept, h.declare_of_some hsome, h.lookup?_assign, Locals.assign, if_pos hsome,
        hseeded]
  | none =>
      funext other
      rw [h.declare_of_none hread, h.ensureSpecial.lookup?_append, h.lookup?_ensureSpecial]
      by_cases heq : other = name
      · rw [heq, if_pos rfl]
        by_cases hname : name ∈ specialNames
        · rw [if_pos ⟨hname, hread⟩, Locals.withSpecials_of_mem hname, Option.some_or]
        · have hkept : ¬ Locals.Misplaces scope.lookup? name := fun hlost => hname hlost.1
          rw [if_neg hkept, Locals.withSpecials_of_not_mem _ hname, hread, Option.none_or,
            Locals.write, Function.update_self]
      · rw [if_neg heq, Option.or_none]
        exact (Locals.declare_of_ne _ heq value).symm

/-- In a scope with a local, a declaration is a write of the map. -/
theorem lookup?_declare_of_isSome (h : scope.Aligned)
    (hfound : (scope.lookup? other).isSome = true) (name : String) (value : Value) :
    (scope.declare name value).lookup? = Locals.write scope.lookup? name value := by
  have hkept : ¬ Locals.Misplaces scope.lookup? name := by
    rw [h.misplaces_iff]
    rintro ⟨hnil, _⟩
    rw [lookup?_eq_none_iff.mpr (hnil ▸ List.not_mem_nil)] at hfound
    cases hfound
  rw [h.lookup?_declare, Locals.declare, if_neg hkept, ← h.lookup?_ensureSpecial,
    h.ensureSpecial_of_isSome hfound]

theorem nodup_ensureSpecial (h : scope.Aligned) (hnodup : scope.names.Nodup) :
    scope.ensureSpecial.names.Nodup := by
  rcases h.names_eq with hnil | ⟨own, hown⟩
  · rw [h.eq_new hnil]
    decide
  · rw [ensureSpecial_of_names hown]
    exact hnodup

/-- No name comes to stand twice, unless it is misplaced. -/
theorem nodup_declare (h : scope.Aligned) (hkept : ¬ Locals.Misplaces scope.lookup? name)
    (hnodup : scope.names.Nodup) (value : Value) : (scope.declare name value).names.Nodup := by
  cases hread : scope.lookup? name with
  | some old =>
      rw [h.declare_of_some (by rw [hread]; rfl), assign_names]
      exact hnodup
  | none =>
      have hname : name ∉ specialNames := fun hmem => hkept ⟨hmem, hread⟩
      have hnew : name ∉ scope.ensureSpecial.names := by
        rw [← lookup?_eq_none_iff, h.lookup?_ensureSpecial,
          Locals.withSpecials_of_not_mem _ hname, hread]
      rw [h.declare_of_none hread]
      refine List.nodup_append.mpr ⟨h.nodup_ensureSpecial hnodup, List.pairwise_singleton _ name, ?_⟩
      rintro other hother _ hlast rfl
      exact hnew (List.mem_singleton.mp hlast ▸ hother)

theorem slotOf?_declare (h : scope.Aligned) (hslot : scope.slotOf? other = some slot)
    (name : String) (value : Value) : (scope.declare name value).slotOf? other = some slot := by
  cases hread : scope.lookup? name with
  | some old =>
      rw [h.declare_of_some (by rw [hread]; rfl), slotOf?, assign_names]
      exact hslot
  | none =>
      have hfound : (scope.lookup? other).isSome = true := by
        rw [lookup?, hslot]
        rfl
      rw [h.declare_of_none hread, slotOf?_append, h.ensureSpecial_of_isSome hfound, hslot,
        Option.some_or]

end Aligned

/-! ## Sequences of writes -/

inductive Write where
  | declare (name : String) (value : Value)
  | assign (name : String) (value : Value)

def Write.edit : Write -> Edit
  | .declare name value => .declare name value
  | .assign name value => .assign name value

def Write.update (locals : Locals) : Write -> Locals
  | .declare name value => locals.declare name value
  | .assign name value => locals.assign name value

def writing (scope : Scope) (writes : List Write) : Scope :=
  writes.foldl (fun scope write => write.edit.apply scope) scope

namespace Aligned

theorem lookup?_write (h : scope.Aligned) (write : Write) :
    (write.edit.apply scope).lookup? = write.update scope.lookup? := by
  cases write with
  | declare name value => exact h.lookup?_declare name value
  | assign name value => exact h.lookup?_assign name value

theorem slotOf?_write (h : scope.Aligned) (hslot : scope.slotOf? name = some slot)
    (write : Write) : (write.edit.apply scope).slotOf? name = some slot := by
  cases write with
  | declare other value => exact h.slotOf?_declare hslot other value
  | assign other value =>
      show (scope.assign other value).2.slotOf? name = some slot
      rw [slotOf?, assign_names]
      exact hslot

theorem lookup?_writing (h : scope.Aligned) (writes : List Write) :
    (scope.writing writes).lookup? = writes.foldl Write.update scope.lookup? := by
  induction writes generalizing scope with
  | nil => rfl
  | cons write writes ih =>
      show (Scope.writing (write.edit.apply scope) writes).lookup? = _
      rw [ih (h.edit write.edit), h.lookup?_write, List.foldl_cons]

theorem slotOf?_writing (h : scope.Aligned) (hslot : scope.slotOf? name = some slot)
    (writes : List Write) : (scope.writing writes).slotOf? name = some slot := by
  induction writes generalizing scope with
  | nil => exact hslot
  | cons write writes ih => exact ih (h.edit write.edit) (h.slotOf?_write hslot write)

end Aligned

/-- A new scope reads nil under the special names and those it was made with. -/
theorem lookup?_withLocals (names : List String) (name : String) :
    (withLocals names).lookup? name =
      if name ∈ specialNames ++ names then some .nil else none := by
  have hfold : ∀ scope : Scope, scope.Aligned -> (scope.lookup? "_").isSome = true ->
      (names.foldl (fun scope name => scope.declare name .nil) scope).lookup? name =
        if name ∈ names then some .nil else scope.lookup? name := by
    induction names with
    | nil => exact fun _ _ _ => rfl
    | cons first names ih =>
        intro scope h hfound
        have hdeclared := h.lookup?_declare_of_isSome hfound first .nil
        have hkept : ((scope.declare first .nil).lookup? "_").isSome = true := by
          rw [hdeclared, Locals.write]
          by_cases heq : "_" = first
          · rw [heq, Function.update_self]
            rfl
          · rw [Function.update_of_ne heq]
            exact hfound
        rw [List.foldl_cons, ih _ (h.declare first .nil) hkept, hdeclared, Locals.write]
        by_cases heq : name = first
        · simp [heq]
        · simp [heq]
  have hstart : (ensureSpecial {}).lookup? name = if name ∈ specialNames then some .nil else none :=
    congrFun aligned_new.lookup?_ensureSpecial name
  rw [withLocals, hfold _ aligned_new.ensureSpecial rfl, hstart]
  by_cases hspecial : name ∈ specialNames
  · simp [hspecial]
  · simp [hspecial]

/-! ## The main result -/

/-- A declared local reads back and no other changes, unless a special name is declared where there
are no locals. So the locals of a scope are a map, and every name keeps its slot. -/
theorem declared_locals_read_back {scope : Scope} (hbuilt : scope.Built) :
    (∀ name value,
      let declared := scope.declare name value
      (¬ Locals.Misplaces scope.lookup? name ->
        declared.lookup? name = some value ∧ (scope.names.Nodup -> declared.names.Nodup)) ∧
      (∀ other, other ≠ name -> declared.lookup? other = scope.lookup? other ∨
        scope.lookup? other = none ∧ other ∈ specialNames ∧ declared.lookup? other = some .nil) ∧
      (Locals.Misplaces scope.lookup? name ↔ scope.names = [] ∧ name ∈ specialNames) ∧
      -- The value of a misplaced name lies in a third slot, and the name leads to the first or second.
      (Locals.Misplaces scope.lookup? name -> declared.lookup? name = some .nil ∧
        declared = { names := specialNames ++ [name], values := [.nil, .nil, value] }) ∧
      (scope.assign name value).1 = (scope.lookup? name).isSome) ∧
    (∀ writes,
      (scope.writing writes).lookup? = writes.foldl Write.update scope.lookup? ∧
      ∀ name slot, scope.slotOf? name = some slot ->
        (scope.writing writes).slotOf? name = some slot) ∧
    (∀ name, ({} : Scope).lookup? name = none) ∧
    ∀ names name, (withLocals names).lookup? name =
      if name ∈ specialNames ++ names then some .nil else none := by
  have h := hbuilt.aligned
  refine ⟨fun name value => ?_, fun writes => ?_, fun _ => rfl, lookup?_withLocals⟩
  · have hread := congrFun (h.lookup?_declare name value)
    refine ⟨fun hkept => ⟨?_, fun hnodup => h.nodup_declare hkept hnodup value⟩, ?_, ?_, ?_, ?_⟩
    · rw [hread, Locals.declare, if_neg hkept, Locals.write, Function.update_self]
    · intro other hne
      rw [hread, Locals.declare_of_ne _ hne]
      cases hother : scope.lookup? other with
      | some old => exact Or.inl (by rw [Locals.withSpecials, hother, Option.some_or])
      | none =>
          by_cases hname : other ∈ specialNames
          · exact Or.inr ⟨rfl, hname, by rw [Locals.withSpecials_of_mem hname, hother]; rfl⟩
          · exact Or.inl (by rw [Locals.withSpecials_of_not_mem _ hname, hother])
    · exact h.misplaces_iff
    · intro hlost
      obtain ⟨hnil, hname⟩ := h.misplaces_iff.mp hlost
      refine ⟨?_, ?_⟩
      · rw [hread, Locals.declare, if_pos hlost, Locals.withSpecials_of_mem hname, hlost.2]
        rfl
      · rw [h.declare_of_none hlost.2, h.eq_new hnil]
        rfl
    · exact h.assign_answer name value
  · exact ⟨h.lookup?_writing writes, fun name slot hslot => h.slotOf?_writing hslot writes⟩

/-- Writes in a scope without locals: the first one finds nothing to assign, and the special name is
declared when it is there. -/
def writesFromEmpty : List Write :=
  [.assign "x" (.int 1), .declare "x" (.int 2), .declare "_" (.int 3), .assign "x" (.int 4)]

theorem declared_locals_read_back_from_empty :
    ({} : Scope).Built ∧
    (({} : Scope).writing writesFromEmpty).lookup? "x" = some (.int 4) ∧
    (({} : Scope).writing writesFromEmpty).lookup? "_" = some (.int 3) ∧
    (({} : Scope).writing writesFromEmpty).lookup? "y" = none ∧
    ¬ Locals.Misplaces ({} : Scope).lookup? "x" ∧
    (({} : Scope).declare "x" (.int 2)).lookup? "x" = some (.int 2) ∧
    (({} : Scope).declare "x" (.int 2)).names.Nodup := by
  obtain ⟨hsteps, hruns, _, _⟩ := declared_locals_read_back Built.new
  have hmap := congrFun (hruns writesFromEmpty).1
  have hkept : ¬ Locals.Misplaces ({} : Scope).lookup? "x" := by decide
  obtain ⟨hread, hnodup⟩ := (hsteps "x" (.int 2)).1 hkept
  refine ⟨Built.new, (hmap "x").trans ?_, (hmap "_").trans ?_, (hmap "y").trans ?_, hkept, hread,
    hnodup List.nodup_nil⟩
  · decide
  · decide
  · decide

/-- In a scope without locals, the last line is declared and reads nil, and its name stands twice.
-/
theorem special_name_declared_first :
    let declared := ({} : Scope).declare "_" (.int 1)
    ({} : Scope).Built ∧ ({} : Scope).names.Nodup ∧
      declared.lookup? "_" ≠ some (.int 1) ∧ declared.lookup? "_" = some .nil ∧
      ¬ declared.names.Nodup ∧ declared.names = ["_", "~", "_"] ∧
      declared.values = [.nil, .nil, .int 1] := by
  refine ⟨Built.new, List.nodup_nil, ?_, rfl, ?_, rfl, rfl⟩
  · decide
  · decide

end Scope

end ExecutionContext
