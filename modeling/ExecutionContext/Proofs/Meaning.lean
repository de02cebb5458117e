import ExecutionContext.Proofs.Contract

/-! # What the layers around a run make of its signals

Each of the six operations on a context is a layer around the code it runs, and
has a rule: a signal that reaches the layer is passed on, or answered with a
value, or makes the layer run its code again, or (when the tag of a throw cannot
be compared) is never decided. Passes through a block, attempts at a call, method
calls and catches are all settled by such a rule, one end of the code at a time.
-/

namespace ExecutionContext

variable {H : Host}

/-- What a layer makes of a signal that reaches it. -/
inductive Meaning where
  | passed
  | answered (value : Value)
  | repeated
  | undecided
deriving DecidableEq

/-- What a layer makes of every signal; the heap decides whether two tags are equal. -/
abbrev Rule := Heap -> Signal -> Meaning

namespace Rule

def block : Rule
  | _, .next => .answered .nil
  | _, .returnWith value => .answered value
  | _, .redo => .repeated
  | _, _ => .passed

def call : Rule
  | _, .breakWith value => .answered value
  | _, .retry => .repeated
  | _, _ => .passed

def iteration : Rule
  | _, .breakWith _ => .answered .nil
  | _, .returnWith value => .answered value
  | _, .retry => .repeated
  | _, _ => .passed

def method : Rule
  | _, .returnWith value => .answered value
  | _, _ => .passed

def moduleBody : Rule
  | _, _ => .passed

def catching (tag : Value) : Rule
  | heap, .throwTo thrown value =>
      match heap.equal? thrown tag with
      | some true => .answered value
      | some false => .passed
      | none => .undecided
  | _, _ => .passed

/-- How the code's end ends the layer; `again` runs the code once more. -/
def settle (rule : Rule) (again : Run Signal H Value) :
    EStateM.Result (Exit Signal) (Context H) Value -> EStateM.Result (Exit Signal) (Context H) Value
  | .ok value d => .ok value d
  | .error (.raised signal) d =>
      match rule d.heap signal with
      | .passed => .error (.raised signal) d
      | .answered value => .ok value d
      | .repeated => again d
      | .undecided => .error .exhausted d
  | .error exit d => .error exit d

end Rule

/-! ## The repeating constructions are settled by their rules -/

theorem passes_succ (body : Run Signal H Value) (limit : Nat) (c : Context H) :
    passes body (limit + 1) c = Rule.block.settle (passes body limit) (body c) := by
  rw [passes]
  dsimp only
  cases body c with
  | ok value d => rfl
  | error exit d =>
      cases exit with
      | raised signal => cases signal <;> rfl
      | fault fault => rfl
      | exhausted => rfl

theorem attempts_succ_call (call : Run Signal H Value) (limit : Nat) (c : Context H) :
    attempts finishCall call (limit + 1) c =
      Rule.call.settle (attempts finishCall call limit) (call c) := by
  rw [attempts]
  dsimp only
  cases call c with
  | ok value d => rfl
  | error exit d =>
      cases exit with
      | raised signal => cases signal <;> rfl
      | fault fault => rfl
      | exhausted => rfl

theorem attempts_succ_iteration (driver : Run Signal H Value) (limit : Nat) (c : Context H) :
    attempts finishIteration driver (limit + 1) c =
      Rule.iteration.settle (attempts finishIteration driver limit) (driver c) := by
  rw [attempts]
  dsimp only
  cases driver c with
  | ok value d => rfl
  | error exit d =>
      cases exit with
      | raised signal => cases signal <;> rfl
      | fault fault => rfl
      | exhausted => rfl

theorem catchingReturn_eq_settle (body again : Run Signal H Value) (c : Context H) :
    catchingReturn body c = Rule.method.settle again (body c) := by
  unfold catchingReturn
  cases body c with
  | ok value d => rfl
  | error exit d =>
      cases exit with
      | raised signal => cases signal <;> rfl
      | fault fault => rfl
      | exhausted => rfl

theorem settle_moduleBody (again : Run Signal H Value)
    (r : EStateM.Result (Exit Signal) (Context H) Value) : Rule.moduleBody.settle again r = r := by
  cases r with
  | ok value d => rfl
  | error exit d => cases exit <;> rfl

theorem catchTag_eq_settle (tag : Value) (body again : Run Signal H Value) (c : Context H) :
    catchTag tag body c = (Rule.catching tag).settle again (body c) := by
  unfold catchTag
  cases body c with
  | ok value d => rfl
  | error exit d =>
      cases exit with
      | fault fault => rfl
      | exhausted => rfl
      | raised signal =>
          cases signal with
          | throwTo thrown value =>
              simp only [Rule.settle, Rule.catching]
              cases d.heap.equal? thrown tag with
              | none => rfl
              | some same => cases same <;> rfl
          | _ => rfl

/-! ## Settling keeps contracts -/

theorem Contract.Allows.settle {K : Contract H} {rule : Rule} {again : Run Signal H Value}
    {c : Context H} {r : EStateM.Result (Exit Signal) (Context H) Value} (h : K.Allows c r)
    (ha : again.Keeps K) : K.Allows c (rule.settle again r) := by
  cases r with
  | ok value d => exact h
  | error exit d =>
      cases exit with
      | fault fault => exact h
      | exhausted => exact h
      | raised signal =>
          simp only [Rule.settle]
          cases rule d.heap signal with
          | passed => exact h
          | answered value => exact h.1
          | repeated => exact (ha d h.1.1).of_links h.1.2
          | undecided => exact ⟨h.1, fun _ hx => by cases hx⟩

namespace Run.Keeps

variable {K : Contract H} {body : Run Signal H Value}

theorem passes (h : Keeps K body) (limit : Nat) : Keeps K (passes body limit) := by
  induction limit with
  | zero => exact exhausted
  | succ limit ih =>
      intro c hc
      rw [passes_succ]
      exact (h c hc).settle ih

theorem attempts_call (h : Keeps K body) (limit : Nat) :
    Keeps K (attempts finishCall body limit) := by
  induction limit with
  | zero => exact exhausted
  | succ limit ih =>
      intro c hc
      rw [attempts_succ_call]
      exact (h c hc).settle ih

theorem attempts_iteration (h : Keeps K body) (limit : Nat) :
    Keeps K (attempts finishIteration body limit) := by
  induction limit with
  | zero => exact exhausted
  | succ limit ih =>
      intro c hc
      rw [attempts_succ_iteration]
      exact (h c hc).settle ih

theorem catchingReturn (h : Keeps K body) : Keeps K (catchingReturn body) := by
  intro c hc
  rw [catchingReturn_eq_settle body Run.exhausted]
  exact (h c hc).settle exhausted

theorem catchTag (h : Keeps K body) (tag : Value) : Keeps K (catchTag tag body) := by
  intro c hc
  rw [catchTag_eq_settle tag body Run.exhausted]
  exact (h c hc).settle exhausted

end Run.Keeps

end ExecutionContext
