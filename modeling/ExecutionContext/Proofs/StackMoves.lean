import ExecutionContext.Proofs.Installation

/-! # Moves on a stack, and the open class as a stack

A move pushes, pops, replaces the top entry or reads it. Moves that never reach below
the height at which they began, and end at that height, leave the stack as it was. The
open class with the classes it replaced takes the same moves, and answers and breaks
the discipline at the same places as one stack on which the first of all its classes
is sealed.
-/

namespace ExecutionContext

variable {α β σ τ : Type}

/-! ## Moves and sequences of moves -/

inductive StackMove (α : Type) where
  | push (entry : α)
  | pop
  | setTop (entry : α)
  | current

def moveAll (move : σ -> StackMove α -> β × σ) : σ -> List (StackMove α) -> List β × σ
  | s, [] => ([], s)
  | s, first :: rest =>
      let (answer, s) := move s first
      let (answers, s) := moveAll move s rest
      (answer :: answers, s)

/-- Moves that keep two states related and answer alike do so in any sequence. -/
theorem moveAll_related {R : σ -> τ -> Prop} {move : σ -> StackMove α -> β × σ}
    {move' : τ -> StackMove α -> β × τ}
    (step : ∀ {s t}, R s t -> ∀ one,
      (move s one).1 = (move' t one).1 ∧ R (move s one).2 (move' t one).2)
    (moves : List (StackMove α)) {s : σ} {t : τ} (h : R s t) :
    (moveAll move s moves).1 = (moveAll move' t moves).1 ∧
      R (moveAll move s moves).2 (moveAll move' t moves).2 := by
  induction moves generalizing s t with
  | nil => exact ⟨rfl, h⟩
  | cons one rest ih =>
      obtain ⟨hanswer, hnext⟩ := step h one
      obtain ⟨hanswers, hlast⟩ := ih hnext
      refine ⟨?_, hlast⟩
      simp only [moveAll, hanswer, hanswers]

namespace StackMove

/-- The height after a move, counted from where the moves began; none when the move reaches below
that. A replaced or read entry must have been pushed since. -/
def rise : Nat -> StackMove α -> Option Nat
  | height, .push _ => some (height + 1)
  | height + 1, .pop => some height
  | height + 1, .setTop _ => some (height + 1)
  | height + 1, .current => some (height + 1)
  | 0, _ => none

/-- The height after moves in order; none when one of them reaches below the beginning. -/
def riseAll : Nat -> List (StackMove α) -> Option Nat
  | height, [] => some height
  | height, move :: rest => (move.rise height).bind fun higher => riseAll higher rest

theorem riseAll_append (height : Nat) (first last : List (StackMove α)) :
    riseAll height (first ++ last) =
      (riseAll height first).bind fun higher => riseAll higher last := by
  induction first generalizing height with
  | nil => rfl
  | cons one first ih => simp only [List.cons_append, riseAll, ih, Option.bind_assoc]

end StackMove

/-! ## Stacks -/

namespace Stack

/-- Make a move. One that breaks the discipline leaves the stack as it is. -/
def move (stack : Stack α) : StackMove α -> Except Fault (Option α) × Stack α
  | .push entry => (.ok none, stack.push entry)
  | .pop =>
      match stack.pop with
      | .ok (entry, rest) => (.ok (some entry), rest)
      | .error fault => (.error fault, stack)
  | .setTop entry =>
      match stack.setTop entry with
      | .ok (old, replaced) => (.ok (some old), replaced)
      | .error fault => (.error fault, stack)
  | .current =>
      match stack.current with
      | .ok entry => (.ok (some entry), stack)
      | .error fault => (.error fault, stack)

theorem depth_eq_base_iff {stack : Stack α} :
    stack.depth = stack.base.length ↔ stack.live = [] := by
  rw [depth, ← List.length_eq_zero_iff]
  omega

/-- A stack can be popped unless all of its entries are base entries. -/
theorem pop_eq_error_iff {stack : Stack α} {fault : Fault} :
    stack.pop = .error fault ↔
      stack.depth = stack.base.length ∧ fault = .underflow stack.name := by
  rw [depth_eq_base_iff]
  unfold pop
  cases hlive : stack.live with
  | nil => simp [eq_comm]
  | cons entry rest => simp

theorem move_pop_at_base {stack : Stack α} :
    stack.move .pop = (.error (.underflow stack.name), stack) ↔
      stack.depth = stack.base.length := by
  cases hpop : stack.pop with
  | ok popped =>
      refine ⟨fun h => ?_, fun h => ?_⟩
      · simp [move, hpop] at h
      · rw [pop_eq_error_iff.mpr ⟨h, rfl⟩] at hpop
        cases hpop
  | error fault =>
      obtain ⟨hbase, hfault⟩ := pop_eq_error_iff.mp hpop
      simp [move, hpop, hbase, hfault]

def taller (stack : Stack α) (own : List α) : Stack α :=
  { stack with live := own ++ stack.live }

/-- A move above the beginning answers, and changes only what was pushed since. -/
theorem move_taller (stack : Stack α) {own : List α} {move : StackMove α} {height : Nat}
    (h : move.rise own.length = some height) :
    ∃ answer later, later.length = height ∧
      (stack.taller own).move move = (.ok answer, stack.taller later) := by
  cases move with
  | push entry => exact ⟨none, entry :: own, Option.some.inj h, rfl⟩
  | pop =>
      cases own with
      | nil => cases h
      | cons entry rest => exact ⟨some entry, rest, Option.some.inj h, rfl⟩
  | setTop entry =>
      cases own with
      | nil => cases h
      | cons old rest => exact ⟨some old, entry :: rest, Option.some.inj h, rfl⟩
  | current =>
      cases own with
      | nil => cases h
      | cons entry rest => exact ⟨some entry, entry :: rest, Option.some.inj h, rfl⟩

theorem moveAll_taller (stack : Stack α) {moves : List (StackMove α)} {own : List α} {height : Nat}
    (h : StackMove.riseAll own.length moves = some height) :
    ∃ later, later.length = height ∧
      (moveAll move (stack.taller own) moves).2 = stack.taller later ∧
      ∀ answer ∈ (moveAll move (stack.taller own) moves).1, ∃ entry, answer = .ok entry := by
  induction moves generalizing own with
  | nil => exact ⟨own, Option.some.inj h, rfl, nofun⟩
  | cons one rest ih =>
      obtain ⟨higher, hone, hrest⟩ := Option.bind_eq_some_iff.mp h
      obtain ⟨answer, between, rfl, hmove⟩ := move_taller stack hone
      obtain ⟨later, hlater, hlast, hanswers⟩ := ih hrest
      refine ⟨later, hlater, ?_, ?_⟩
      · simp only [moveAll, hmove, hlast]
      · intro given hgiven
        simp only [moveAll, hmove, List.mem_cons] at hgiven
        exact hgiven.elim (fun heq => ⟨answer, heq⟩) (hanswers given)

/-- Balanced moves give back every entry, and none of them breaks the discipline. -/
theorem moveAll_of_balanced (stack : Stack α) {moves : List (StackMove α)}
    (h : StackMove.riseAll 0 moves = some 0) :
    (moveAll move stack moves).2 = stack ∧
      ∀ answer ∈ (moveAll move stack moves).1, ∃ entry, answer = .ok entry := by
  have hnone : StackMove.riseAll ([] : List α).length moves = some 0 := h
  obtain ⟨later, hlater, hlast, hanswers⟩ := moveAll_taller stack hnone
  rw [List.length_eq_zero_iff.mp hlater] at hlast
  exact ⟨hlast, hanswers⟩

end Stack

/-! ## The open class -/

namespace OpenClass

/-- Make a move on the open class: opening pushes, closing pops, replacing sets the top. -/
def move (classes : OpenClass α) :
    StackMove (Option α) -> Except Fault (Option (Option α)) × OpenClass α
  | .push cls => (.ok none, classes.push cls)
  | .pop =>
      match classes.pop with
      | .ok (closed, rest) => (.ok (some closed), rest)
      | .error fault => (.error fault, classes)
  | .setTop cls => (.ok (some (classes.setCurrent cls).1), (classes.setCurrent cls).2)
  | .current => (.ok (some classes.current), classes)

/-- The open class lies on the saved ones, and one more entry is sealed than saved ones are. -/
structure Simulates (classes : OpenClass α) (stack : Stack (Option α)) : Prop where
  name : stack.name = classes.saved.name
  entries : stack.entries = classes.current :: classes.saved.entries
  base : stack.base.length = classes.saved.base.length + 1

variable {classes : OpenClass α} {stack : Stack (Option α)}

theorem simulates_empty :
    ({} : OpenClass α).Simulates (({ name := "class" } : Stack (Option α)).push none).sealBase :=
  ⟨rfl, rfl, rfl⟩

namespace Simulates

theorem length_live (h : classes.Simulates stack) :
    stack.live.length = classes.saved.live.length := by
  have hlength := congrArg List.length h.entries
  have hbase := h.base
  simp only [Stack.entries, List.length_append, List.length_cons] at hlength
  omega

theorem top? (h : classes.Simulates stack) : stack.top? = some classes.current := by
  rw [Stack.top?_eq_head?, h.entries, List.head?_cons]

theorem push (h : classes.Simulates stack) (cls : Option α) :
    (classes.push cls).Simulates (stack.push cls) :=
  ⟨h.name, congrArg (cls :: ·) h.entries, h.base⟩

theorem setCurrent (h : classes.Simulates stack) (cls : Option α) :
    (classes.setCurrent cls).2.Simulates (stack.withTop cls) := by
  obtain ⟨hname, hentries, hbase⟩ := h
  obtain ⟨name, live, base⟩ := stack
  cases live with
  | cons top live => exact ⟨hname, congrArg (cls :: ·) (List.cons.inj hentries).2, hbase⟩
  | nil =>
      cases base with
      | nil => cases hentries
      | cons top base => exact ⟨hname, congrArg (cls :: ·) (List.cons.inj hentries).2, hbase⟩

theorem pop (h : classes.Simulates stack) :
    (∃ saved rest, classes.pop = .ok (classes.current, saved) ∧
      stack.pop = .ok (classes.current, rest) ∧ saved.Simulates rest) ∨
    classes.pop = .error (.underflow stack.name) ∧
      stack.pop = .error (.underflow stack.name) := by
  have hlength := h.length_live
  obtain ⟨hname, hentries, hbase⟩ := h
  obtain ⟨current, ⟨savedName, saved, savedBase⟩⟩ := classes
  obtain ⟨name, live, base⟩ := stack
  cases hname
  cases live with
  | nil =>
      cases saved with
      | nil => exact Or.inr ⟨rfl, rfl⟩
      | cons restored saved => cases hlength
  | cons top live =>
      cases saved with
      | nil => cases hlength
      | cons restored saved =>
          obtain ⟨rfl, hrest⟩ := List.cons.inj hentries
          exact Or.inl ⟨_, _, rfl, rfl, rfl, hrest, hbase⟩

theorem move (h : classes.Simulates stack) (one : StackMove (Option α)) :
    (classes.move one).1 = (stack.move one).1 ∧
      (classes.move one).2.Simulates (stack.move one).2 := by
  cases one with
  | push cls => exact ⟨rfl, h.push cls⟩
  | pop =>
      rcases h.pop with ⟨saved, rest, hclose, hpop, hrest⟩ | ⟨hclose, hpop⟩
      · simp only [OpenClass.move, Stack.move, hclose, hpop]
        exact ⟨trivial, hrest⟩
      · simp only [OpenClass.move, Stack.move, hclose, hpop]
        exact ⟨trivial, h⟩
  | setTop cls =>
      simp only [OpenClass.move, Stack.move, Stack.setTop_of_top? h.top?]
      exact ⟨rfl, h.setCurrent cls⟩
  | current =>
      simp only [OpenClass.move, Stack.move, Stack.current_of_top? h.top?]
      exact ⟨trivial, h⟩

/-- The stack tells which class is open and which are saved. -/
theorem eq_of_base {other : OpenClass α} (h : classes.Simulates stack)
    (ho : other.Simulates stack) (hbase : other.saved.base = classes.saved.base) :
    other = classes := by
  have hentries := ho.entries.symm.trans h.entries
  have hname := ho.name.symm.trans h.name
  obtain ⟨current, ⟨name, saved, base⟩⟩ := classes
  obtain ⟨otherCurrent, ⟨otherName, otherSaved, otherBase⟩⟩ := other
  simp only [Stack.entries, List.cons.injEq] at hname hentries hbase
  obtain ⟨rfl, hentries⟩ := hentries
  subst hname hbase
  rw [List.append_cancel_right hentries]

end Simulates

theorem exists_simulates (classes : OpenClass α) :
    ∃ stack : Stack (Option α), classes.Simulates stack := by
  obtain ⟨current, ⟨name, saved, base⟩⟩ := classes
  induction saved generalizing current with
  | nil => exact ⟨{ name := name, base := current :: base }, rfl, rfl, rfl⟩
  | cons restored saved ih =>
      obtain ⟨stack, h⟩ := ih restored
      exact ⟨stack.push current, h.push current⟩

theorem base_move (classes : OpenClass α) (one : StackMove (Option α)) :
    (classes.move one).2.saved.base = classes.saved.base := by
  cases one with
  | pop =>
      obtain ⟨current, ⟨name, saved, base⟩⟩ := classes
      cases saved with
      | nil => rfl
      | cons restored saved => rfl
  | _ => rfl

/-- Balanced moves bring back the open class and all saved ones. -/
theorem moveAll_of_balanced (classes : OpenClass α) {moves : List (StackMove (Option α))}
    (h : StackMove.riseAll 0 moves = some 0) :
    (moveAll move classes moves).2 = classes ∧
      ∀ answer ∈ (moveAll move classes moves).1, ∃ entry, answer = .ok entry := by
  obtain ⟨stack, hstack⟩ := classes.exists_simulates
  let Alike (k : OpenClass α) (s : Stack (Option α)) : Prop :=
    k.Simulates s ∧ k.saved.base = classes.saved.base
  obtain ⟨hanswers, hsame, hbase⟩ := moveAll_related (R := Alike)
    (fun hk one => ⟨(hk.1.move one).1, (hk.1.move one).2, (base_move _ one).trans hk.2⟩)
    moves ⟨hstack, rfl⟩
  obtain ⟨hback, hnone⟩ := stack.moveAll_of_balanced h
  rw [hback] at hsame
  exact ⟨hstack.eq_of_base hsame hbase, fun answer hmem => hnone answer (hanswers ▸ hmem)⟩

end OpenClass

/-! ## The stacks of a context -/

variable {H : Host} {ε : Type}

/-- Popping one of the stacks of a context fails exactly at its base, where it changes nothing. -/
theorem Run.popping_at_base (stack : Context H -> Stack α) (put : Context H -> Stack α -> Context H)
    (c : Context H) :
    (do
      let c ← get
      let (entry, rest) ← Run.ofFault (stack c).pop
      set (put c rest)
      return entry : Run ε H α) c = .error (.fault (.underflow (stack c).name)) c ↔
    (stack c).depth = (stack c).base.length := by
  rw [Run.bind_of_ok (Run.get_apply c)]
  cases hpop : (stack c).pop with
  | ok popped =>
      refine ⟨fun h => (by cases h), fun h => ?_⟩
      rw [Stack.pop_eq_error_iff.mpr ⟨h, rfl⟩] at hpop
      cases hpop
  | error fault =>
      obtain ⟨hbase, rfl⟩ := Stack.pop_eq_error_iff.mp hpop
      exact ⟨fun _ => hbase, fun _ => rfl⟩

theorem popClass_at_base (c : Context H) :
    (popClass : Run ε H _) c = .error (.fault (.underflow c.classes.saved.name)) c ↔
      c.classes.saved.depth = c.classes.saved.base.length := by
  unfold popClass
  rw [Run.bind_of_ok (Run.get_apply c)]
  cases hpop : c.classes.saved.pop with
  | ok popped =>
      simp only [OpenClass.pop, hpop]
      refine ⟨fun h => (by cases h), fun h => ?_⟩
      rw [Stack.pop_eq_error_iff.mpr ⟨h, rfl⟩] at hpop
      cases hpop
  | error fault =>
      obtain ⟨hbase, rfl⟩ := Stack.pop_eq_error_iff.mp hpop
      simp only [OpenClass.pop, hpop]
      exact ⟨fun _ => hbase, fun _ => rfl⟩

/-! ## The main result -/

/-- Balanced moves give a stack back, and a pop fails exactly at the base. The open class over the
saved ones takes any moves as one stack does that has a sealed entry more. -/
theorem stack_moves_balance :
    (∀ {α : Type} (stack : Stack α) (moves : List (StackMove α)),
      StackMove.riseAll 0 moves = some 0 ->
        (moveAll Stack.move stack moves).2 = stack ∧
        ∀ answer ∈ (moveAll Stack.move stack moves).1, ∃ entry, answer = .ok entry) ∧
    (∀ {α : Type} (stack : Stack α),
      (stack.move .pop = (.error (.underflow stack.name), stack) ↔
        stack.depth = stack.base.length) ∧
      ∀ fault, stack.pop = .error fault ↔
        stack.depth = stack.base.length ∧ fault = .underflow stack.name) ∧
    (∀ {H : Host} {ε : Type} (c : Context H),
      ((popFrame : Run ε H _) c = .error (.fault (.underflow c.frames.name)) c ↔
        c.frames.depth = c.frames.base.length) ∧
      ((popScope : Run ε H _) c = .error (.fault (.underflow c.scopes.name)) c ↔
        c.scopes.depth = c.scopes.base.length) ∧
      ((popBlock : Run ε H _) c = .error (.fault (.underflow c.blocks.name)) c ↔
        c.blocks.depth = c.blocks.base.length) ∧
      ((popMark : Run ε H _) c = .error (.fault (.underflow c.marks.name)) c ↔
        c.marks.depth = c.marks.base.length) ∧
      ((popClass : Run ε H _) c = .error (.fault (.underflow c.classes.saved.name)) c ↔
        c.classes.saved.depth = c.classes.saved.base.length)) ∧
    (∀ {α : Type},
      ({} : OpenClass α).Simulates (({ name := "class" } : Stack (Option α)).push none).sealBase ∧
      (∀ classes : OpenClass α, ∃ stack : Stack (Option α), classes.Simulates stack) ∧
      ∀ {classes : OpenClass α} {stack : Stack (Option α)}, classes.Simulates stack ->
        ∀ moves : List (StackMove (Option α)),
          (moveAll OpenClass.move classes moves).1 = (moveAll Stack.move stack moves).1 ∧
          (moveAll OpenClass.move classes moves).2.Simulates
            (moveAll Stack.move stack moves).2) ∧
    ∀ {α : Type} (classes : OpenClass α) (cls : Option α) (moves : List (StackMove (Option α))),
      StackMove.riseAll 1 moves = some 1 ->
        (moveAll OpenClass.move classes (.push cls :: (moves ++ [.pop]))).2 = classes ∧
        ∀ answer ∈ (moveAll OpenClass.move classes (.push cls :: (moves ++ [.pop]))).1,
          ∃ entry, answer = .ok entry := by
  refine ⟨Stack.moveAll_of_balanced, fun stack => ⟨Stack.move_pop_at_base, fun fault =>
    Stack.pop_eq_error_iff⟩, fun c => ⟨?_, ?_, ?_, ?_, popClass_at_base c⟩,
    ⟨OpenClass.simulates_empty, OpenClass.exists_simulates, fun h moves =>
      moveAll_related (fun h one => h.move one) moves h⟩, ?_⟩
  · exact Run.popping_at_base (fun c => c.frames) (fun c frames => { c with frames := frames }) c
  · exact Run.popping_at_base (fun c => c.scopes) (fun c scopes => { c with scopes := scopes }) c
  · exact Run.popping_at_base (fun c => c.blocks) (fun c blocks => { c with blocks := blocks }) c
  · exact Run.popping_at_base (fun c => c.marks) (fun c marks => { c with marks := marks }) c
  · intro α classes cls moves hmoves
    refine classes.moveAll_of_balanced ?_
    show (StackMove.riseAll 1 (moves ++ [.pop])) = some 0
    rw [StackMove.riseAll_append, hmoves]
    rfl

/-- Moves over two sealed entries, and a class that is replaced, closed over and closed. -/
theorem stack_moves_balance_sealed :
    let stack : Stack Nat := (({ name := "frame" } : Stack Nat).push 1 |>.push 2).sealBase
    let moves : List (StackMove Nat) := [.push 3, .setTop 4, .push 5, .pop, .pop]
    let classes : OpenClass Nat := ({} : OpenClass Nat).push (some 1)
    let inside : List (StackMove (Option Nat)) :=
      [.setTop (some 7), .push none, .setTop (some 8), .pop, .current]
    (moveAll Stack.move stack moves).2 = stack ∧
    stack.move .pop = (.error (.underflow "frame"), stack) ∧
    (moveAll OpenClass.move classes (.push (some 2) :: (inside ++ [.pop]))).1 =
      [.ok none, .ok (some (some 2)), .ok none, .ok (some none), .ok (some (some 8)),
        .ok (some (some 7)), .ok (some (some 7))] ∧
    (moveAll OpenClass.move classes (.push (some 2) :: (inside ++ [.pop]))).2 = classes ∧
    (moveAll OpenClass.move {} [.setTop (some 3), .pop]).1 =
      [.ok (some none), .error (.underflow "class")] := by
  intro stack moves classes inside
  obtain ⟨hbalanced, hbase, _, hopen, hclosed⟩ := stack_moves_balance
  obtain ⟨hfresh, _, hsimulated⟩ := hopen (α := Nat)
  refine ⟨(hbalanced stack moves rfl).1, (hbase stack).1.mpr rfl, rfl, ?_, ?_⟩
  · exact (hclosed classes (some 2) inside rfl).1
  · exact (hsimulated hfresh [.setTop (some 3), .pop]).1

end ExecutionContext
