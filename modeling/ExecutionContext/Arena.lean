/-!
# Identities and the cells they name

A `Ref` is an identity: two references are equal exactly when they name the same
thing. An `Arena` is a growing table of mutable cells of one sort, and a
reference is a position in it. Nothing is ever freed, so an identity handed out
once keeps naming the same cell. Reading answers with the cell last written, and
a write touches no other cell.
-/

namespace ExecutionContext

/-- The sorts of things that have an identity of their own. -/
inductive Kind where
  | text
  | array
  | object
  | module
  | frame
  | scope
  | level
  | link
  | global
  | block
deriving DecidableEq

/-- The identity of one thing of the given sort. -/
structure Ref (kind : Kind) where
  index : Nat
deriving DecidableEq, Inhabited

/-- The cells of one sort, in order of creation. -/
structure Arena (kind : Kind) (α : Type) where
  cells : Array α := #[]

namespace Arena

variable {kind : Kind} {α : Type}

instance : Inhabited (Arena kind α) := ⟨{}⟩

def size (arena : Arena kind α) : Nat :=
  arena.cells.size

/-- Whether the identity was handed out by this arena. -/
def Has (arena : Arena kind α) (ref : Ref kind) : Prop :=
  ref.index < arena.size

def alloc (arena : Arena kind α) (value : α) : Ref kind × Arena kind α :=
  (⟨arena.cells.size⟩, ⟨arena.cells.push value⟩)

/-- The content of a cell; the default for an identity never handed out. -/
def read [Inhabited α] (arena : Arena kind α) (ref : Ref kind) : α :=
  arena.cells.getD ref.index default

def write (arena : Arena kind α) (ref : Ref kind) (value : α) : Arena kind α :=
  ⟨arena.cells.setIfInBounds ref.index value⟩

def modify [Inhabited α] (arena : Arena kind α) (ref : Ref kind) (change : α -> α) :
    Arena kind α :=
  arena.write ref (change (arena.read ref))

/-! ## Reading after creating and writing -/

@[simp] theorem size_alloc (arena : Arena kind α) (value : α) :
    (arena.alloc value).2.size = arena.size + 1 := by
  simp [alloc, size]

@[simp] theorem size_write (arena : Arena kind α) (ref : Ref kind) (value : α) :
    (arena.write ref value).size = arena.size := by
  simp [write, size]

theorem has_alloc (arena : Arena kind α) (value : α) :
    (arena.alloc value).2.Has (arena.alloc value).1 := by
  simp [alloc, Has, size]

theorem not_has_alloc (arena : Arena kind α) (value : α) :
    ¬ arena.Has (arena.alloc value).1 := by
  simp [alloc, Has, size]

theorem Has.alloc {arena : Arena kind α} {ref : Ref kind} (h : arena.Has ref) (value : α) :
    (arena.alloc value).2.Has ref := by
  simp only [Has, size_alloc] at *
  omega

theorem has_alloc_iff {arena : Arena kind α} {ref : Ref kind} {value : α} :
    (arena.alloc value).2.Has ref ↔ arena.Has ref ∨ ref = (arena.alloc value).1 := by
  have hsame : ref = (arena.alloc value).1 ↔ ref.index = arena.size := by
    cases ref
    simp [alloc, size]
  rw [hsame, Has, size_alloc, Has]
  omega

@[simp] theorem has_write {arena : Arena kind α} {ref other : Ref kind} {value : α} :
    (arena.write other value).Has ref ↔ arena.Has ref := by
  simp [Has]

@[simp] theorem read_alloc_self [Inhabited α] (arena : Arena kind α) (value : α) :
    (arena.alloc value).2.read (arena.alloc value).1 = value := by
  simp [alloc, read]

theorem read_alloc_of_has [Inhabited α] {arena : Arena kind α} {ref : Ref kind}
    (h : arena.Has ref) (value : α) : (arena.alloc value).2.read ref = arena.read ref := by
  have h' : ref.index < arena.cells.size := h
  simp [alloc, read, Array.getD_eq_getD_getElem?, Array.getElem?_push, Nat.ne_of_lt h']

theorem read_write_self [Inhabited α] {arena : Arena kind α} {ref : Ref kind}
    (h : arena.Has ref) (value : α) : (arena.write ref value).read ref = value := by
  have h' : ref.index < arena.cells.size := h
  simp [write, read, Array.getD_eq_getD_getElem?, h']

theorem read_write_of_ne [Inhabited α] (arena : Arena kind α) {ref other : Ref kind}
    (h : other ≠ ref) (value : α) : (arena.write other value).read ref = arena.read ref := by
  have h' : other.index ≠ ref.index := by
    intro e
    exact h (by cases other; cases ref; simp_all)
  simp [write, read, Array.getD_eq_getD_getElem?, Array.getElem?_setIfInBounds_ne h']

end Arena

end ExecutionContext
