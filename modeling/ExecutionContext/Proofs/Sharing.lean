import ExecutionContext.Proofs.Location
import ExecutionContext.Proofs.Tables

/-! # Aliases share locations

A table of linked variables and the flat model answer every sequence of operations
alike. What relates them is the list of the roots created so far, one for each
location: names and handles stand for the same roots in the table as in the flat
model, and no two locations share a cell.
-/

namespace ExecutionContext

/-! ## Roots and their locations -/

/-- The location shows what the variable, which is no link, holds. -/
inductive Variable.ShownBy (cells : GlobalCells) : Variable -> Location -> Prop where
  | plain {name : String} {cell : Ref .global} (h : cells.Has cell) :
      ShownBy cells (.plain name cell) { name := name, content := .plain (cells.read cell) }
  | readOnly {name : String} {value : Value} :
      ShownBy cells (.readOnly name value) { name := name, content := .readOnly value }
  | special {name : String} {kind : SpecialGlobal} :
      ShownBy cells (.special name kind) { name := name, content := .special kind }

namespace Variable.ShownBy

variable {cells : GlobalCells} {var : Variable} {location : Location}

theorem read_eq (h : var.ShownBy cells location) : var.read cells = location.read := by
  cases h <;> rfl

theorem has {name : String} {cell : Ref .global}
    (h : (Variable.plain name cell).ShownBy cells location) :
    cells.Has cell := by
  cases h with
  | plain hcell => exact hcell

theorem of_reads {cells' : GlobalCells} (h : var.ShownBy cells location)
    (hcells : ∀ cell, cells.Has cell -> cells'.Has cell ∧ cells'.read cell = cells.read cell) :
    var.ShownBy cells' location := by
  cases h with
  | plain hcell =>
      obtain ⟨hhas, hread⟩ := hcells _ hcell
      rw [← hread]
      exact .plain hhas
  | readOnly => exact .readOnly
  | special => exact .special

theorem of_write {cell : Ref .global} {value : Value} (h : var.ShownBy cells location)
    (hne : ∀ name, var ≠ .plain name cell) : var.ShownBy (cells.write cell value) location := by
  cases h with
  | plain hcell =>
      rename_i name other
      have hother : cell ≠ other := fun he => hne name (by rw [he])
      rw [← Arena.read_write_of_ne cells hother value]
      exact .plain (Arena.has_write.mpr hcell)
  | readOnly => exact .readOnly
  | special => exact .special

theorem written {name : String} {cell : Ref .global} {value : Value} (h : cells.Has cell) :
    (Variable.plain name cell).ShownBy (cells.write cell value)
      { name := name, content := .plain value } := by
  have hshown : (Variable.plain name cell).ShownBy (cells.write cell value) _ :=
    .plain (Arena.has_write.mpr h)
  rw [Arena.read_write_self h value] at hshown
  exact hshown

end Variable.ShownBy

/-- A variable in a chain to the root created with the location. -/
def Variable.At (roots : List Variable) (var : Variable) (place : Ref .global) : Prop :=
  roots[place.index]? = some var.root

theorem Variable.At.append {roots : List Variable} {var : Variable} {place : Ref .global}
    (h : var.At roots place) (root : Variable) : var.At (roots ++ [root]) place := by
  have hlt : place.index < roots.length := (List.getElem?_eq_some_iff.mp h).1
  unfold Variable.At
  rw [List.getElem?_append_left hlt]
  exact h

/-- The flat model is what the table amounts to, given the roots by location. -/
structure Agrees (roots : List Variable) (s : Session) (f : Flat) : Prop where
  size : f.locations.size = roots.length
  shown : ∀ (place : Ref .global) root, roots[place.index]? = some root ->
    root.ShownBy s.globals.cells (f.locations.read place)
  apart : ∀ (i j : Nat) name other cell, roots[i]? = some (Variable.plain name cell) ->
    roots[j]? = some (Variable.plain other cell) -> i = j
  table : Table.Rel (Variable.At roots) s.globals.table f.table
  held : List.Forall₂ (Variable.At roots) s.held f.held

def Session.Refines (s : Session) (f : Flat) : Prop :=
  ∃ roots, Agrees roots s f

namespace Agrees

variable {roots : List Variable} {s : Session} {f : Flat}

theorem empty : Agrees [] {} {} where
  size := rfl
  shown := by intro place root h; cases h
  apart := by intro i j name other cell h; cases h
  table := .empty
  held := .nil

/-! ## Reading and writing -/

theorem has_place (h : Agrees roots s f) {var : Variable} {place : Ref .global}
    (hat : var.At roots place) : f.locations.Has place := by
  unfold Arena.Has
  rw [h.size]
  exact (List.getElem?_eq_some_iff.mp hat).1

theorem read_eq (h : Agrees roots s f) {var : Variable} {place : Ref .global}
    (hat : var.At roots place) :
    var.read s.globals.cells = (f.locations.read place).read := by
  rw [← var.read_root]
  exact (h.shown place _ hat).read_eq

/-- A write is refused on both sides for the same reason, or carried out on both sides. -/
inductive Written (roots : List Variable) (s : Session) (f : Flat) :
    Except Failure (GlobalWrite × GlobalCells) -> Except Failure GlobalWrite × Flat -> Prop where
  | refused (failure : Failure) : Written roots s f (.error failure) (.error failure, f)
  | done {outcome : GlobalWrite} {cells : GlobalCells} {f' : Flat} :
      Agrees roots { s with globals := { s.globals with cells := cells } } f' ->
      Written roots s f (.ok (outcome, cells)) (.ok outcome, f')

theorem write (h : Agrees roots s f) {var : Variable} {place : Ref .global}
    (hat : var.At roots place) (value : Value) :
    Written roots s f (var.write s.globals.cells value) (f.write place value) := by
  have hshown := h.shown place _ hat
  have hhas := h.has_place hat
  rw [← var.write_root]
  unfold Variable.At at hat
  generalize var.root = root at hat hshown ⊢
  generalize hl : f.locations.read place = location at hshown
  unfold Flat.write
  rw [hl]
  cases hshown with
  | readOnly => exact .refused _
  | special => exact .done h
  | plain hcell =>
      rename_i name cell
      refine .done ⟨?_, ?_, h.apart, h.table, h.held⟩
      · simpa using h.size
      · intro other root hroot
        by_cases hplace : place = other
        · -- The location written shows the cell written.
          subst hplace
          cases hat.symm.trans hroot
          rw [Arena.read_write_self hhas]
          exact .written hcell
        · rw [Arena.read_write_of_ne _ hplace]
          refine (h.shown other root hroot).of_write fun name' he => ?_
          rw [he] at hroot
          have hindex := h.apart _ _ _ _ _ hat hroot
          exact hplace (congrArg Ref.mk hindex)

/-! ## Creating variables and binding names -/

/-- A variable added to the table's store goes with a location added to the flat model. -/
theorem create (h : Agrees roots s f) {cells : GlobalCells} {var : Variable} {location : Location}
    (hcells : ∀ cell, s.globals.cells.Has cell ->
      cells.Has cell ∧ cells.read cell = s.globals.cells.read cell)
    (hshown : var.ShownBy cells location) (hroot : var.root = var)
    (hfresh : ∀ name cell, var = .plain name cell -> ¬ s.globals.cells.Has cell) :
    Agrees (roots ++ [var]) { s with globals := { s.globals with cells := cells } }
        (f.create location).2 ∧ var.At (roots ++ [var]) (f.create location).1 := by
  have hplace : (f.create location).1.index = roots.length := h.size
  have hold : ∀ (i : Nat) root, (roots ++ [var])[i]? = some root ->
      roots[i]? = some root ∨ i = roots.length ∧ root = var := by
    intro i root hi
    by_cases hlt : i < roots.length
    · rw [List.getElem?_append_left hlt] at hi
      exact Or.inl hi
    · have hlast : i = roots.length := by
        have hbound := (List.getElem?_eq_some_iff.mp hi).1
        rw [List.length_append, List.length_singleton] at hbound
        omega
      subst hlast
      rw [List.getElem?_concat_length] at hi
      cases hi
      exact Or.inr ⟨rfl, rfl⟩
  -- A plain root that was there before has a cell that was there before.
  have hhas : ∀ (i : Nat) name cell, roots[i]? = some (Variable.plain name cell) ->
      s.globals.cells.Has cell := by
    intro i name cell hi
    exact (h.shown ⟨i⟩ _ hi).has
  refine ⟨⟨?_, ?_, ?_, ?_, ?_⟩, ?_⟩
  · rw [List.length_append, ← h.size]
    exact Arena.size_alloc f.locations location
  · intro place root hi
    rcases hold place.index root hi with hi | ⟨hindex, rfl⟩
    · have hplace : f.locations.Has place := by
        rw [Arena.Has, h.size]
        exact (List.getElem?_eq_some_iff.mp hi).1
      change root.ShownBy cells ((f.locations.alloc location).2.read place)
      rw [Arena.read_alloc_of_has hplace]
      exact (h.shown place root hi).of_reads hcells
    · have hsame : place = (f.locations.alloc location).1 :=
        congrArg Ref.mk (hindex.trans h.size.symm)
      change root.ShownBy cells ((f.locations.alloc location).2.read place)
      rw [hsame, Arena.read_alloc_self]
      exact hshown
  · intro i j name other cell hi hj
    rcases hold i _ hi with hi | ⟨hi, hvar⟩
    · rcases hold j _ hj with hj | ⟨_, hvar⟩
      · exact h.apart i j name other cell hi hj
      · exact absurd (hhas i name cell hi) (hfresh other cell hvar.symm)
    · rcases hold j _ hj with hj | ⟨hj, _⟩
      · exact absurd (hhas j other cell hj) (hfresh name cell hvar.symm)
      · exact hi.trans hj.symm
  · exact h.table.mono fun _ _ hat => hat.append var
  · exact h.held.imp fun _ _ hat => hat.append var
  · unfold Variable.At
    rw [hplace, hroot, List.getElem?_concat_length]

theorem define (h : Agrees roots s f) {var : Variable} {place : Ref .global}
    (hat : var.At roots place) :
    Agrees roots { s with globals := s.globals.define var } (f.define var.name place) :=
  ⟨h.size, h.shown, h.apart, h.table.insert var.name hat, h.held⟩

theorem undefine (h : Agrees roots s f) (name : String) :
    Agrees roots { s with globals := (s.globals.undefine name).2 }
      { f with table := f.table.erase name } :=
  ⟨h.size, h.shown, h.apart, h.table.erase name, h.held⟩

theorem hold (h : Agrees roots s f) {var : Variable} {place : Ref .global}
    (hat : var.At roots place) : Agrees roots (s.hold var) (f.hold place) :=
  ⟨h.size, h.shown, h.apart, h.table, List.rel_append h.held (.cons hat .nil)⟩

theorem createPlain (h : Agrees roots s f) (name : String) (value : Value) :
    Agrees (roots ++ [.plain name (s.globals.cells.alloc value).1])
        { s with globals := { s.globals with cells := (s.globals.cells.alloc value).2 } }
        (f.create { name := name, content := .plain value }).2 ∧
      (Variable.plain name (s.globals.cells.alloc value).1).At
        (roots ++ [.plain name (s.globals.cells.alloc value).1])
        (f.create { name := name, content := .plain value }).1 := by
  have hshown : (Variable.plain name (s.globals.cells.alloc value).1).ShownBy
      (s.globals.cells.alloc value).2 _ := .plain (Arena.has_alloc s.globals.cells value)
  rw [Arena.read_alloc_self] at hshown
  refine h.create ?_ hshown rfl ?_
  · intro cell hcell
    exact ⟨hcell.alloc value, Arena.read_alloc_of_has hcell value⟩
  · intro name' cell he
    cases he
    exact Arena.not_has_alloc s.globals.cells value

/-- What a name leads to, created first if need be. -/
theorem entry (h : Agrees roots s f) (name : String) :
    ∃ roots', Agrees roots' { s with globals := (s.globals.entry name).2 } (f.entry name).2 ∧
      (s.globals.entry name).1.At roots' (f.entry name).1 := by
  have hget := h.table.get? name
  unfold Globals.entry Globals.lookup? Flat.entry
  cases hs : s.globals.table.get? name with
  | some var =>
      rw [hs] at hget
      cases hf : f.table.get? name with
      | none => rw [hf] at hget; cases hget
      | some place =>
          rw [hf] at hget
          cases hget with
          | some hat => exact ⟨roots, h, hat⟩
  | none =>
      rw [hs] at hget
      cases hf : f.table.get? name with
      | some place => rw [hf] at hget; cases hget
      | none =>
          obtain ⟨hcreated, hat⟩ := h.createPlain name .nil
          exact ⟨_, hcreated.define hat, hat⟩

theorem createConstant (h : Agrees roots s f) {var : Variable} {location : Location}
    (hshown : var.ShownBy s.globals.cells location) (hroot : var.root = var)
    (hplain : ∀ name cell, var ≠ .plain name cell) :
    Agrees (roots ++ [var]) s (f.create location).2 ∧
      var.At (roots ++ [var]) (f.create location).1 :=
  h.create (fun _ hcell => ⟨hcell, rfl⟩) hshown hroot fun name cell he =>
    absurd he (hplain name cell)

/-- A handle stands for a variable and its location, or for nothing on either side. -/
theorem heldAt (h : Agrees roots s f) (handle : Nat) :
    Option.Rel (Variable.At roots) s.held[handle]? f.held[handle]? := by
  have hheld := h.held
  generalize s.held = vars at hheld ⊢
  generalize f.held = places at hheld ⊢
  induction hheld generalizing handle with
  | nil => exact .none
  | cons hat _ ih =>
      cases handle with
      | zero => exact .some hat
      | succ handle => exact ih handle

inductive Made (name : String) :
    Option (Variable × Session) -> Option (Ref .global × Flat) -> Prop where
  | neither : Made name none none
  | both {roots : List Variable} {s : Session} {f : Flat} {var : Variable} {place : Ref .global} :
      Agrees roots s f -> var.At roots place -> var.name = name ->
      Made name (some (var, s)) (some (place, f))

theorem make (h : Agrees roots s f) (name : String) (definition : VariableDefinition) :
    Made name (s.make name definition) (f.make name definition) := by
  cases definition with
  | plain value =>
      obtain ⟨hcreated, hat⟩ := h.createPlain name value
      exact .both hcreated hat rfl
  | readOnly value =>
      have hshown : (Variable.readOnly name value).ShownBy s.globals.cells _ := .readOnly
      obtain ⟨hcreated, hat⟩ := h.createConstant hshown rfl (by intro _ _ he; cases he)
      exact .both hcreated hat rfl
  | special kind =>
      have hshown : (Variable.special name kind).ShownBy s.globals.cells _ := .special
      obtain ⟨hcreated, hat⟩ := h.createConstant hshown rfl (by intro _ _ he; cases he)
      exact .both hcreated hat rfl
  | link handle =>
      have hheld := h.heldAt handle
      simp only [Session.make, Flat.make]
      generalize s.held[handle]? = target at hheld ⊢
      generalize f.held[handle]? = place at hheld ⊢
      cases hheld with
      | none => exact .neither
      | some hat => exact .both h hat rfl

/-- Every operation is answered alike, and leaves a table to which the flat model still amounts. -/
theorem perform (h : Agrees roots s f) (operation : GlobalOperation) :
    (s.perform operation).1 = (f.perform operation).1 ∧
      (s.perform operation).2.Refines (f.perform operation).2 := by
  cases operation with
  | make name definition =>
      have hmade := h.make name definition
      simp only [Session.perform, Flat.perform]
      generalize s.make name definition = made at hmade ⊢
      generalize f.make name definition = place at hmade ⊢
      cases hmade with
      | neither => exact ⟨rfl, roots, h⟩
      | both hagrees hat _ => exact ⟨rfl, _, hagrees.hold hat⟩
  | define name definition =>
      have hmade := h.make name definition
      simp only [Session.perform, Flat.perform]
      generalize s.make name definition = made at hmade ⊢
      generalize f.make name definition = place at hmade ⊢
      cases hmade with
      | neither => exact ⟨rfl, roots, h⟩
      | both hagrees hat hname =>
          subst hname
          exact ⟨rfl, _, (hagrees.define hat).hold hat⟩
  | lookup name =>
      have hget := h.table.get? name
      simp only [Session.perform, Flat.perform, Globals.lookup?]
      generalize s.globals.table.get? name = var at hget ⊢
      generalize f.table.get? name = place at hget ⊢
      cases hget with
      | none => exact ⟨rfl, roots, h⟩
      | some hat => exact ⟨rfl, roots, h.hold hat⟩
  | get name =>
      obtain ⟨roots', hagrees, hat⟩ := h.entry name
      have hread := hagrees.read_eq hat
      exact ⟨congrArg GlobalAnswer.found hread, roots', hagrees⟩
  | set name value =>
      obtain ⟨roots', hagrees, hat⟩ := h.entry name
      have hwrite := hagrees.write hat value
      have hrefused := @Globals.entry_of_refused s.globals name value
      simp only [Session.perform, Flat.perform, Globals.set]
      generalize (s.globals.entry name).1.write _ value = written at hwrite hrefused ⊢
      generalize (f.entry name).2.write _ value = written' at hwrite ⊢
      cases hwrite with
      | done hafter => exact ⟨rfl, roots', hafter⟩
      | refused failure =>
          rw [hrefused rfl] at hagrees
          exact ⟨rfl, roots', hagrees⟩
  | addAlias old new =>
      obtain ⟨roots', hagrees, hat⟩ := h.entry old
      exact ⟨rfl, roots', hagrees.define hat⟩
  | undefine name =>
      exact ⟨congrArg GlobalAnswer.flag (h.table.contains_eq name), roots, h.undefine name⟩
  | isDefined name => exact ⟨congrArg GlobalAnswer.flag (h.table.contains_eq name), roots, h⟩
  | names => exact ⟨congrArg GlobalAnswer.listed h.table.names_eq, roots, h⟩
  | size => exact ⟨congrArg GlobalAnswer.counted h.table.size_eq, roots, h⟩
  | read handle =>
      have hheld := h.heldAt handle
      simp only [Session.perform, Flat.perform]
      generalize s.held[handle]? = var at hheld ⊢
      generalize f.held[handle]? = place at hheld ⊢
      cases hheld with
      | none => exact ⟨rfl, roots, h⟩
      | some hat => exact ⟨congrArg GlobalAnswer.found (h.read_eq hat), roots, h⟩
  | write handle value =>
      have hheld := h.heldAt handle
      simp only [Session.perform, Flat.perform]
      generalize s.held[handle]? = var at hheld ⊢
      generalize f.held[handle]? = place at hheld ⊢
      cases hheld with
      | none => exact ⟨rfl, roots, h⟩
      | @some var place hat =>
          have hwrite := h.write hat value
          dsimp only
          generalize var.write _ value = written at hwrite ⊢
          generalize f.write place value = written' at hwrite ⊢
          cases hwrite with
          | done hafter => exact ⟨rfl, roots, hafter⟩
          | refused failure => exact ⟨rfl, roots, h⟩

end Agrees

theorem Session.Refines.empty : Session.Refines {} {} := ⟨[], .empty⟩

theorem Session.Refines.perform {s : Session} {f : Flat} (h : s.Refines f)
    (operation : GlobalOperation) :
    (s.perform operation).1 = (f.perform operation).1 ∧
      (s.perform operation).2.Refines (f.perform operation).2 := by
  obtain ⟨roots, hagrees⟩ := h
  exact hagrees.perform operation

end ExecutionContext
