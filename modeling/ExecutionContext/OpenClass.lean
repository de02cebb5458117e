import ExecutionContext.Stack

/-!
# The open class

The class that definitions go to, together with the classes it replaced. Opening
a class saves the present one; closing brings back the one that was saved.
-/

namespace ExecutionContext

/-- The present open class over the saved ones; `none` means that no class is open. -/
structure OpenClass (α : Type) where
  current : Option α := none
  saved : Stack (Option α) := { name := "class" }

namespace OpenClass

variable {α : Type}

instance : Inhabited (OpenClass α) := ⟨{}⟩

/-- Open a class, saving the present one. -/
def push (classes : OpenClass α) (cls : Option α) : OpenClass α :=
  { current := cls, saved := classes.saved.push classes.current }

/-- Close the present class and bring back the saved one. -/
def pop (classes : OpenClass α) : Except Fault (Option α × OpenClass α) :=
  match classes.saved.pop with
  | .ok (restored, saved) => .ok (classes.current, { current := restored, saved := saved })
  | .error fault => .error fault

/-- Replace the present class without saving it. -/
def setCurrent (classes : OpenClass α) (cls : Option α) : Option α × OpenClass α :=
  (classes.current, { classes with current := cls })

def depth (classes : OpenClass α) : Nat :=
  classes.saved.depth

@[simp] theorem pop_push (classes : OpenClass α) (cls : Option α) :
    (classes.push cls).pop = .ok (cls, classes) := rfl

end OpenClass

end ExecutionContext
