/-!
# Stacks with a protected base

A stack is its live entries above its base entries. Only live entries can be
popped; `sealBase` turns all present entries into base entries. Popping at the base,
and reading or replacing the top of an empty stack, is a broken discipline of
pushes and pops, a `Fault`, and never an answer of the running program.
-/

namespace ExecutionContext

/-- A broken rule of use, as opposed to a failure of the program that runs. -/
inductive Fault where
  | underflow (stack : String)
  | notStarted
deriving DecidableEq

def Fault.message : Fault -> String
  | .underflow stack =>
      "internal error: " ++ stack ++ " stack popped past its base entry (interpreter bug)"
  | .notStarted => "internal error: runtime used before init() (interpreter bug)"

/-- A stack, both parts listed from the top down. -/
structure Stack (α : Type) where
  name : String
  live : List α := []
  base : List α := []

namespace Stack

variable {α : Type}

instance : Inhabited (Stack α) := ⟨{ name := "" }⟩

/-- All entries from the top down. -/
def entries (stack : Stack α) : List α :=
  stack.live ++ stack.base

def depth (stack : Stack α) : Nat :=
  stack.live.length + stack.base.length

def isEmpty (stack : Stack α) : Bool :=
  stack.entries.isEmpty

def push (stack : Stack α) (entry : α) : Stack α :=
  { stack with live := entry :: stack.live }

def top? (stack : Stack α) : Option α :=
  match stack.live with
  | entry :: _ => some entry
  | [] => stack.base.head?

/-- The entry just below the top. -/
def previous? (stack : Stack α) : Option α :=
  match stack.live with
  | _ :: entry :: _ => some entry
  | [_] => stack.base.head?
  | [] => stack.base.tail.head?

/-- Take the top entry off; a base entry stays. -/
def pop (stack : Stack α) : Except Fault (α × Stack α) :=
  match stack.live with
  | entry :: rest => .ok (entry, { stack with live := rest })
  | [] => .error (.underflow stack.name)

/-- The top entry of a stack that must not be empty. -/
def current (stack : Stack α) : Except Fault α :=
  match stack.top? with
  | some entry => .ok entry
  | none => .error (.underflow stack.name)

/-- Replace the top entry, base or live, and hand back the old one. -/
def setTop (stack : Stack α) (entry : α) : Except Fault (α × Stack α) :=
  match stack.live, stack.base with
  | old :: rest, _ => .ok (old, { stack with live := entry :: rest })
  | [], old :: rest => .ok (old, { stack with base := entry :: rest })
  | [], [] => .error (.underflow stack.name)

/-- Protect every present entry from being popped. -/
def sealBase (stack : Stack α) : Stack α :=
  { stack with live := [], base := stack.entries }

/-! ## Pushes and pops through the entries -/

@[simp] theorem entries_push (stack : Stack α) (entry : α) :
    (stack.push entry).entries = entry :: stack.entries := rfl

@[simp] theorem pop_push (stack : Stack α) (entry : α) :
    (stack.push entry).pop = .ok (entry, stack) := rfl

@[simp] theorem top?_push (stack : Stack α) (entry : α) :
    (stack.push entry).top? = some entry := rfl

@[simp] theorem entries_sealBase (stack : Stack α) : stack.sealBase.entries = stack.entries := rfl

theorem depth_eq_length (stack : Stack α) : stack.depth = stack.entries.length := by
  simp [depth, entries]

theorem top?_eq_head? (stack : Stack α) : stack.top? = stack.entries.head? := by
  unfold top? entries
  cases stack.live <;> rfl

theorem previous?_eq (stack : Stack α) : stack.previous? = stack.entries.tail.head? := by
  unfold previous? entries
  match stack.live with
  | [] => rfl
  | [_] => rfl
  | _ :: _ :: _ => rfl

end Stack

end ExecutionContext
