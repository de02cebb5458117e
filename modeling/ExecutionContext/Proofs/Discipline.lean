import ExecutionContext.Context.Start

/-! # The stack discipline of a context

A started context has a frame, a scope and a mark that no pop can reach, and no
block that a pop cannot reach. Two contexts of the same stacks differ in none of
their entries, except perhaps in the one scope on top: code may replace the top
scope, and everything else that it pushes it must take off again.
-/

namespace ExecutionContext

/-! ## Replacing the top of a stack -/

namespace Stack

variable {α : Type}

/-- The stack with another entry on top; an empty stack stays empty. -/
def withTop (stack : Stack α) (entry : α) : Stack α :=
  match stack.live, stack.base with
  | _ :: rest, _ => { stack with live := entry :: rest }
  | [], _ :: rest => { stack with base := entry :: rest }
  | [], [] => stack

def SameBelow (s t : Stack α) : Prop :=
  t = s ∨ ∃ entry, t = s.withTop entry

@[simp] theorem withTop_withTop (stack : Stack α) (first second : α) :
    (stack.withTop first).withTop second = stack.withTop second := by
  obtain ⟨name, live, base⟩ := stack
  cases live with
  | cons _ _ => rfl
  | nil => cases base <;> rfl

theorem withTop_of_top? {stack : Stack α} {entry : α} (h : stack.top? = some entry) :
    stack.withTop entry = stack := by
  obtain ⟨name, live, base⟩ := stack
  cases live with
  | cons _ _ => cases h; rfl
  | nil =>
      cases base with
      | nil => cases h
      | cons _ _ => cases h; rfl

theorem setTop_of_top? {stack : Stack α} {old : α} (h : stack.top? = some old) (entry : α) :
    stack.setTop entry = .ok (old, stack.withTop entry) := by
  obtain ⟨name, live, base⟩ := stack
  cases live with
  | cons _ _ => cases h; rfl
  | nil =>
      cases base with
      | nil => cases h
      | cons _ _ => cases h; rfl

theorem top?_withTop {stack : Stack α} {old : α} (h : stack.top? = some old) (entry : α) :
    (stack.withTop entry).top? = some entry := by
  obtain ⟨name, live, base⟩ := stack
  cases live with
  | cons _ _ => rfl
  | nil =>
      cases base with
      | nil => cases h
      | cons _ _ => rfl

theorem exists_top?_of_base {stack : Stack α} (h : stack.base ≠ []) :
    ∃ entry, stack.top? = some entry := by
  obtain ⟨name, live, base⟩ := stack
  cases live with
  | cons entry _ => exact ⟨entry, rfl⟩
  | nil =>
      cases base with
      | nil => exact absurd rfl h
      | cons entry _ => exact ⟨entry, rfl⟩

theorem current_of_top? {stack : Stack α} {entry : α} (h : stack.top? = some entry) :
    stack.current = .ok entry := by
  unfold current
  rw [h]

theorem base_withTop_ne_nil {stack : Stack α} (h : stack.base ≠ []) (entry : α) :
    (stack.withTop entry).base ≠ [] := by
  obtain ⟨name, live, base⟩ := stack
  cases live with
  | cons _ _ => exact h
  | nil =>
      cases base with
      | nil => exact h
      | cons _ _ => simp [withTop]

theorem base_sealBase_push_ne_nil (stack : Stack α) (entry : α) :
    (stack.push entry).sealBase.base ≠ [] := by
  simp [sealBase]

theorem SameBelow.refl (stack : Stack α) : SameBelow stack stack := Or.inl rfl

theorem SameBelow.trans {s t u : Stack α} (h₁ : SameBelow s t) (h₂ : SameBelow t u) :
    SameBelow s u := by
  rcases h₁ with rfl | ⟨first, rfl⟩
  · exact h₂
  · rcases h₂ with rfl | ⟨second, rfl⟩
    · exact Or.inr ⟨first, rfl⟩
    · exact Or.inr ⟨second, by simp⟩

theorem SameBelow.withTop_eq {s t : Stack α} (h : SameBelow s t) (entry : α) :
    t.withTop entry = s.withTop entry := by
  rcases h with rfl | ⟨_, rfl⟩
  · rfl
  · simp

theorem SameBelow.exists_top? {s t : Stack α} {old : α} (h : SameBelow s t)
    (hs : s.top? = some old) : ∃ entry, t.top? = some entry := by
  rcases h with rfl | ⟨entry, rfl⟩
  · exact ⟨old, hs⟩
  · exact ⟨entry, top?_withTop hs entry⟩

theorem SameBelow.base_ne_nil {s t : Stack α} (h : SameBelow s t) (hs : s.base ≠ []) :
    t.base ≠ [] := by
  rcases h with rfl | ⟨entry, rfl⟩
  · exact hs
  · exact base_withTop_ne_nil hs entry

theorem push_tail {stack : Stack α} {entry : α} (h : stack.live = entry :: stack.live.tail) :
    { stack with live := stack.live.tail }.push entry = stack := by
  obtain ⟨name, live, base⟩ := stack
  simp only [push] at h ⊢
  rw [← h]

/-- What lies on a pushed entry's stack is the stack below it, whatever replaced the entry. -/
theorem SameBelow.eq_push {s t : Stack α} {old : α} (h : SameBelow (s.push old) t) :
    ∃ entry, t = s.push entry := by
  rcases h with rfl | ⟨entry, rfl⟩
  · exact ⟨old, rfl⟩
  · exact ⟨entry, rfl⟩

end Stack

/-! ## Contexts with a base, and contexts of the same stacks -/

variable {H : Host}

namespace Context

/-- The base that starting installs: a frame, a scope and a mark below every pop, and only
blocks that can be popped. -/
structure Based (c : Context H) : Prop where
  frames : c.frames.base ≠ []
  scopes : c.scopes.base ≠ []
  marks : c.marks.base ≠ []
  blocks : c.blocks.base = []

/-- The same frames, blocks, marks and saved classes, entry for entry, and the same scopes
except perhaps for the one on top. -/
structure SameStacks (c d : Context H) : Prop where
  frames : d.frames = c.frames
  blocks : d.blocks = c.blocks
  marks : d.marks = c.marks
  saved : d.classes.saved = c.classes.saved
  scopes : c.scopes.SameBelow d.scopes

theorem SameStacks.refl (c : Context H) : c.SameStacks c :=
  ⟨rfl, rfl, rfl, rfl, .refl _⟩

theorem SameStacks.trans {c d e : Context H} (h₁ : c.SameStacks d) (h₂ : d.SameStacks e) :
    c.SameStacks e where
  frames := h₂.frames.trans h₁.frames
  blocks := h₂.blocks.trans h₁.blocks
  marks := h₂.marks.trans h₁.marks
  saved := h₂.saved.trans h₁.saved
  scopes := h₁.scopes.trans h₂.scopes

theorem SameStacks.based {c d : Context H} (h : c.SameStacks d) (hc : c.Based) : d.Based where
  frames := by rw [h.frames]; exact hc.frames
  scopes := h.scopes.base_ne_nil hc.scopes
  marks := by rw [h.marks]; exact hc.marks
  blocks := by rw [h.blocks]; exact hc.blocks

theorem Based.exists_scope {c : Context H} (h : c.Based) : ∃ scope, c.scopes.top? = some scope :=
  Stack.exists_top?_of_base h.scopes

theorem Based.exists_mark {c : Context H} (h : c.Based) : ∃ mark, c.marks.top? = some mark :=
  Stack.exists_top?_of_base h.marks

theorem Based.exists_frame {c : Context H} (h : c.Based) : ∃ frame, c.frames.top? = some frame :=
  Stack.exists_top?_of_base h.frames

theorem Based.top?_blocks {c : Context H} (h : c.Based) : c.blocks.top? = c.blocks.live.head? := by
  unfold Stack.top?
  rw [h.blocks]
  cases c.blocks.live <;> rfl

/-- Starting gives a context its base, whatever was pushed on it before. -/
theorem based_start {c : Context H} (hs : c.started = false) (hb : c.blocks.base = [])
    (processId : Int64) : (c.start processId).Based := by
  unfold start
  rw [hs, if_neg Bool.false_ne_true]
  exact ⟨Stack.base_sealBase_push_ne_nil _ _, Stack.base_sealBase_push_ne_nil _ _,
    Stack.base_sealBase_push_ne_nil _ _, hb⟩

end Context

end ExecutionContext
