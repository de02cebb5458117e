import ExecutionContext.Globals

/-! # Globals as names of locations

An alias links to a variable, which may be a link in turn; the chain ends at a root,
and reading or writing any variable of the chain reads or writes the root. The flat
model has no links. A name maps to a location; the location holds a value or stands
for a part of the running context, and remembers the name it was created under.
-/

namespace ExecutionContext

/-! ## The end of a chain of links -/

namespace Variable

/-- The variable to which the links lead. -/
def root : Variable -> Variable
  | .aliasOf _ target => target.root
  | var => var

def links : Variable -> Nat
  | .aliasOf _ target => target.links + 1
  | _ => 0

theorem root_ne_alias (var : Variable) (name : String) (target : Variable) :
    var.root ≠ .aliasOf name target := by
  induction var with
  | plain _ _ => exact fun h => by cases h
  | readOnly _ _ => exact fun h => by cases h
  | special _ _ => exact fun h => by cases h
  | aliasOf _ _ ih => exact ih

theorem read_root (cells : GlobalCells) (var : Variable) :
    var.root.read cells = var.read cells := by
  induction var with
  | plain name cell => rfl
  | readOnly name value => rfl
  | special name kind => rfl
  | aliasOf name target ih => exact ih

theorem write_root (cells : GlobalCells) (value : Value) (var : Variable) :
    var.root.write cells value = var.write cells value := by
  induction var with
  | plain name cell => rfl
  | readOnly name value => rfl
  | special name kind => rfl
  | aliasOf name target ih => exact ih

end Variable

deriving instance DecidableEq for Variable

namespace Globals

/-- The name leads, over any number of links, to that root. -/
def LeadsTo (globals : Globals) (name : String) (root : Variable) : Prop :=
  ∃ var, globals.lookup? name = some var ∧ var.root = root

variable {globals : Globals} {name : String}

instance (root : Variable) : Decidable (globals.LeadsTo name root) :=
  decidable_of_iff (∃ var ∈ globals.lookup? name, var.root = root) Iff.rfl

theorem LeadsTo.get_eq {root : Variable} (h : globals.LeadsTo name root) :
    globals.get name = (root.read globals.cells, globals) := by
  obtain ⟨var, hlookup, rfl⟩ := h
  simp only [get, entry, hlookup, Variable.read_root]

theorem LeadsTo.set_eq {root : Variable} (h : globals.LeadsTo name root) (value : Value) :
    globals.set name value =
      match root.write globals.cells value with
      | .ok (outcome, cells) => .ok (outcome, { globals with cells := cells })
      | .error failure => .error failure := by
  obtain ⟨var, hlookup, rfl⟩ := h
  cases hw : var.write globals.cells value with
  | ok written => simp only [set, entry, hlookup, Variable.write_root, hw]
  | error failure => simp only [set, entry, hlookup, Variable.write_root, hw]

/-- A write is refused only where there was a variable before. -/
theorem entry_of_refused {value : Value} {failure : Failure}
    (h : (globals.entry name).1.write (globals.entry name).2.cells value = .error failure) :
    (globals.entry name).2 = globals := by
  unfold entry at h ⊢
  cases hlookup : globals.lookup? name with
  | some var => rfl
  | none =>
      rw [hlookup] at h
      cases h

/-- A write that is left to the running context has changed nothing. -/
theorem set_of_special {value : Value} {kind : SpecialGlobal} {written : Globals}
    (h : globals.set name value = .ok (.special kind, written)) : written = globals := by
  cases hlookup : globals.lookup? name with
  | none =>
      simp only [set, entry, hlookup] at h
      cases h
  | some var =>
      rw [LeadsTo.set_eq ⟨var, hlookup, rfl⟩] at h
      cases hroot : var.root with
      | plain _ _ => rw [hroot] at h; cases h
      | readOnly _ _ => rw [hroot] at h; cases h
      | special _ _ => rw [hroot] at h; cases h; rfl
      | aliasOf _ target => exact absurd hroot (var.root_ne_alias _ _)

end Globals

/-! ## Operations on a table and on the variables handed out -/

/-- What a variable is made as. A link leads to one of the variables held. -/
inductive VariableDefinition where
  | plain (value : Value)
  | readOnly (value : Value)
  | special (kind : SpecialGlobal)
  | link (handle : Nat)

/-- An operation on a table of globals, or on the variables that its user holds. A variable that is
made, defined or looked up is held from then on, under the next number. -/
inductive GlobalOperation where
  | make (name : String) (definition : VariableDefinition)
  | define (name : String) (definition : VariableDefinition)
  | lookup (name : String)
  | get (name : String)
  | set (name : String) (value : Value)
  | addAlias (old new : String)
  | undefine (name : String)
  | isDefined (name : String)
  | names
  | size
  | read (handle : Nat)
  | write (handle : Nat) (value : Value)

inductive GlobalAnswer where
  | done
  | found (found : GlobalRead)
  | wrote (outcome : Except Failure GlobalWrite)
  | flag (flag : Bool)
  | listed (names : List String)
  | counted (size : Nat)
  -- No variable is held under the number given.
  | notHeld

def performAll {σ : Type} (perform : σ -> GlobalOperation -> GlobalAnswer × σ) :
    σ -> List GlobalOperation -> List GlobalAnswer × σ
  | s, [] => ([], s)
  | s, operation :: rest =>
      let (answer, s) := perform s operation
      let (answers, s) := performAll perform s rest
      (answer :: answers, s)

/-- Steps that keep two states related and answer alike do so in any sequence. -/
theorem performAll_related {σ τ : Type} {R : σ -> τ -> Prop}
    {perform : σ -> GlobalOperation -> GlobalAnswer × σ}
    {perform' : τ -> GlobalOperation -> GlobalAnswer × τ}
    (step : ∀ {s t}, R s t -> ∀ operation,
      (perform s operation).1 = (perform' t operation).1 ∧
        R (perform s operation).2 (perform' t operation).2)
    (operations : List GlobalOperation) {s : σ} {t : τ} (h : R s t) :
    (performAll perform s operations).1 = (performAll perform' t operations).1 ∧
      R (performAll perform s operations).2 (performAll perform' t operations).2 := by
  induction operations generalizing s t with
  | nil => exact ⟨rfl, h⟩
  | cons operation rest ih =>
      obtain ⟨hanswer, hnext⟩ := step h operation
      obtain ⟨hanswers, hlast⟩ := ih hnext
      refine ⟨?_, hlast⟩
      simp only [performAll, hanswer, hanswers]

/-! ## The table of variables -/

structure Session where
  globals : Globals := {}
  held : List Variable := []

namespace Session

def hold (s : Session) (var : Variable) : Session :=
  { s with held := s.held ++ [var] }

def make (s : Session) (name : String) : VariableDefinition -> Option (Variable × Session)
  | .plain value =>
      let (cell, cells) := s.globals.cells.alloc value
      some (.plain name cell, { s with globals := { s.globals with cells := cells } })
  | .readOnly value => some (.readOnly name value, s)
  | .special kind => some (.special name kind, s)
  | .link handle => s.held[handle]?.map fun target => (.aliasOf name target, s)

def perform (s : Session) : GlobalOperation -> GlobalAnswer × Session
  | .make name definition =>
      match s.make name definition with
      | some (var, s) => (.done, s.hold var)
      | none => (.notHeld, s)
  | .define name definition =>
      match s.make name definition with
      | some (var, s) => (.done, { s with globals := s.globals.define var }.hold var)
      | none => (.notHeld, s)
  | .lookup name =>
      match s.globals.lookup? name with
      | some var => (.flag true, s.hold var)
      | none => (.flag false, s)
  | .get name =>
      let (found, globals) := s.globals.get name
      (.found found, { s with globals := globals })
  | .set name value =>
      match s.globals.set name value with
      | .ok (outcome, globals) => (.wrote (.ok outcome), { s with globals := globals })
      | .error failure => (.wrote (.error failure), s)
  | .addAlias old new => (.done, { s with globals := s.globals.addAlias old new })
  | .undefine name =>
      let (found, globals) := s.globals.undefine name
      (.flag found, { s with globals := globals })
  | .isDefined name => (.flag (s.globals.isDefined name), s)
  | .names => (.listed s.globals.names, s)
  | .size => (.counted s.globals.size, s)
  | .read handle =>
      match s.held[handle]? with
      | some var => (.found (var.read s.globals.cells), s)
      | none => (.notHeld, s)
  | .write handle value =>
      match s.held[handle]? with
      | some var =>
          match var.write s.globals.cells value with
          | .ok (outcome, cells) =>
              (.wrote (.ok outcome), { s with globals := { s.globals with cells := cells } })
          | .error failure => (.wrote (.error failure), s)
      | none => (.notHeld, s)

end Session

/-! ## The flat model -/

inductive LocationContent where
  | plain (value : Value)
  | readOnly (value : Value)
  | special (kind : SpecialGlobal)

/-- A location, with the name under which it was created. -/
structure Location where
  name : String
  content : LocationContent

namespace Location

instance : Inhabited Location := ⟨{ name := "", content := .plain .nil }⟩

def read (location : Location) : GlobalRead :=
  match location.content with
  | .plain value | .readOnly value => .value value
  | .special kind => .special kind

end Location

/-- Names of locations, the locations, and those that the user holds. -/
structure Flat where
  table : Table (Ref .global) := {}
  locations : Arena .global Location := {}
  held : List (Ref .global) := []

namespace Flat

def create (f : Flat) (location : Location) : Ref .global × Flat :=
  let (place, locations) := f.locations.alloc location
  (place, { f with locations := locations })

def define (f : Flat) (name : String) (place : Ref .global) : Flat :=
  { f with table := f.table.insert name place }

def hold (f : Flat) (place : Ref .global) : Flat :=
  { f with held := f.held ++ [place] }

/-- The location of a name, made plain and nil if there is none. -/
def entry (f : Flat) (name : String) : Ref .global × Flat :=
  match f.table.get? name with
  | some place => (place, f)
  | none =>
      let (place, f) := f.create { name := name, content := .plain .nil }
      (place, f.define name place)

def write (f : Flat) (place : Ref .global) (value : Value) : Except Failure GlobalWrite × Flat :=
  let location := f.locations.read place
  match location.content with
  | .plain _ =>
      let written := { location with content := .plain value }
      (.ok .stored, { f with locations := f.locations.write place written })
  | .readOnly _ => (.error { cause := .readOnly location.name }, f)
  | .special kind => (.ok (.special kind), f)

def make (f : Flat) (name : String) : VariableDefinition -> Option (Ref .global × Flat)
  | .plain value => some (f.create { name := name, content := .plain value })
  | .readOnly value => some (f.create { name := name, content := .readOnly value })
  | .special kind => some (f.create { name := name, content := .special kind })
  | .link handle => f.held[handle]?.map fun place => (place, f)

def perform (f : Flat) : GlobalOperation -> GlobalAnswer × Flat
  | .make name definition =>
      match f.make name definition with
      | some (place, f) => (.done, f.hold place)
      | none => (.notHeld, f)
  | .define name definition =>
      match f.make name definition with
      | some (place, f) => (.done, (f.define name place).hold place)
      | none => (.notHeld, f)
  | .lookup name =>
      match f.table.get? name with
      | some place => (.flag true, f.hold place)
      | none => (.flag false, f)
  | .get name =>
      let (place, f) := f.entry name
      (.found (f.locations.read place).read, f)
  | .set name value =>
      let (place, f) := f.entry name
      let (outcome, f) := f.write place value
      (.wrote outcome, f)
  | .addAlias old new =>
      let (place, f) := f.entry old
      (.done, f.define new place)
  | .undefine name =>
      (.flag (f.table.contains name), { f with table := f.table.erase name })
  | .isDefined name => (.flag (f.table.contains name), f)
  | .names => (.listed f.table.names, f)
  | .size => (.counted f.table.size, f)
  | .read handle =>
      match f.held[handle]? with
      | some place => (.found (f.locations.read place).read, f)
      | none => (.notHeld, f)
  | .write handle value =>
      match f.held[handle]? with
      | some place =>
          let (outcome, f) := f.write place value
          (.wrote outcome, f)
      | none => (.notHeld, f)

def Shares (f : Flat) (name other : String) : Prop :=
  ∃ place, f.table.get? name = some place ∧ f.table.get? other = some place

end Flat

end ExecutionContext
