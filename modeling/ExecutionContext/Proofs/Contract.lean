import ExecutionContext.Context.Activation

/-! # What runs leave behind

A contract is an invariant of contexts, a relation between the context a run is
given and the one it leaves, and the faults that may end it. A run keeps a
contract when it does so in every way it can end. Sequence, recovery and the
recording of backtraces keep every contract that their parts keep.
-/

namespace ExecutionContext

variable {H : Host} {ε α β : Type}

namespace Run

/-- The context that a run leaves, in whatever way it ends. -/
def after (run : Run ε H α) (c : Context H) : Context H :=
  match run c with
  | .ok _ d => d
  | .error _ d => d

def answer? (run : Run ε H α) (c : Context H) : Option α :=
  match run c with
  | .ok a _ => some a
  | .error _ _ => none

def leaving (run : Run ε H α) (change : Context H -> Context H) : Run ε H α := fun c =>
  match run c with
  | .ok a d => .ok a (change d)
  | .error exit d => .error exit (change d)

/-- Run `run`, and continue with `handler` when it ends with a signal or a fault. -/
def recover (run : Run ε H α) (handler : Exit ε -> Run ε H α) : Run ε H α := fun c =>
  match run c with
  | .ok a d => .ok a d
  | .error .exhausted d => .error .exhausted d
  | .error exit d => handler exit d

theorem after_of_ok {run : Run ε H α} {c d : Context H} {a : α} (h : run c = .ok a d) :
    run.after c = d := by
  simp [after, h]

theorem after_of_error {run : Run ε H α} {c d : Context H} {exit : Exit ε}
    (h : run c = .error exit d) : run.after c = d := by
  simp [after, h]

@[simp] theorem after_leaving (run : Run ε H α) (change : Context H -> Context H) (c : Context H) :
    (run.leaving change).after c = change (run.after c) := by
  cases h : run c <;> simp [after, leaving, h]

/-! ## Runs on a context -/

@[simp] theorem pure_apply (a : α) (c : Context H) : (pure a : Run ε H α) c = .ok a c := rfl

@[simp] theorem get_apply (c : Context H) : (get : Run ε H (Context H)) c = .ok c c := rfl

@[simp] theorem set_apply (c d : Context H) : (set d : Run ε H PUnit) c = .ok ⟨⟩ d := rfl

@[simp] theorem modify_apply (change : Context H -> Context H) (c : Context H) :
    (modify change : Run ε H PUnit) c = .ok ⟨⟩ (change c) := rfl

@[simp] theorem modifyGet_apply (change : Context H -> α × Context H) (c : Context H) :
    (modifyGet change : Run ε H α) c = .ok (change c).1 (change c).2 := rfl

@[simp] theorem ofFault_ok (a : α) (c : Context H) :
    (ofFault (.ok a) : Run ε H α) c = .ok a c := rfl

@[simp] theorem bind_apply (run : Run ε H α) (next : α -> Run ε H β) (c : Context H) :
    (run >>= next) c =
      (match run c with
        | .ok a d => next a d
        | .error exit d => .error exit d : EStateM.Result (Exit ε) (Context H) β) := by
  simp only [bind, EStateM.bind]
  cases run c <;> rfl

@[simp] theorem map_apply (f : α -> β) (run : Run ε H α) (c : Context H) :
    (f <$> run) c =
      (match run c with
        | .ok a d => .ok (f a) d
        | .error exit d => .error exit d : EStateM.Result (Exit ε) (Context H) β) := by
  simp only [Functor.map, EStateM.map]
  cases run c <;> rfl

theorem bind_of_ok {run : Run ε H α} {next : α -> Run ε H β} {c d : Context H} {a : α}
    (h : run c = .ok a d) : (run >>= next) c = next a d := by
  simp [bind, EStateM.bind, h]

theorem bind_of_error {run : Run ε H α} {next : α -> Run ε H β} {c d : Context H}
    {exit : Exit ε} (h : run c = .error exit d) : (run >>= next) c = .error exit d := by
  simp [bind, EStateM.bind, h]

/-- When the restoring step succeeds on the context that the body leaves, all it does is change
that context. -/
theorem ensuring_of_restore {body : Run ε H α} {restore : Run ε H Unit} {c : Context H}
    (change : Context H -> Context H)
    (h : restore (body.after c) = .ok () (change (body.after c))) :
    body.ensuring restore c = body.leaving change c := by
  cases hb : body c with
  | ok a d =>
      rw [after_of_ok hb] at h
      simp [ensuring, leaving, hb, h]
  | error exit d =>
      rw [after_of_error hb] at h
      simp [ensuring, leaving, hb, h]

end Run

/-- An invariant, a relation between the contexts before and after, and the faults allowed. -/
structure Contract (H : Host) where
  Holds : Context H -> Prop
  Links : Context H -> Context H -> Prop
  Faults : Fault -> Prop
  refl : ∀ c, Links c c
  trans : ∀ {c d e}, Links c d -> Links d e -> Links c e

def Contract.Allows (K : Contract H) (c : Context H) :
    EStateM.Result (Exit ε) (Context H) α -> Prop
  | .ok _ d => K.Holds d ∧ K.Links c d
  | .error exit d => (K.Holds d ∧ K.Links c d) ∧ ∀ fault, exit = .fault fault -> K.Faults fault

/-- The run keeps the contract in every way it can end. -/
def Run.Keeps (K : Contract H) (run : Run ε H α) : Prop :=
  ∀ c, K.Holds c -> K.Allows c (run c)

namespace Contract

variable {K : Contract H}

theorem allows_ok {c : Context H} (hc : K.Holds c) (a : α) :
    K.Allows c (.ok a c : EStateM.Result (Exit ε) (Context H) α) :=
  ⟨hc, K.refl c⟩

theorem allows_raised {c : Context H} (hc : K.Holds c) (signal : ε) :
    K.Allows c (.error (.raised signal) c : EStateM.Result (Exit ε) (Context H) α) :=
  ⟨⟨hc, K.refl c⟩, fun _ h => by cases h⟩

theorem allows_exhausted {c : Context H} (hc : K.Holds c) :
    K.Allows c (.error .exhausted c : EStateM.Result (Exit ε) (Context H) α) :=
  ⟨⟨hc, K.refl c⟩, fun _ h => by cases h⟩

/-- What a later part of a run ends with, the whole run ends with. -/
theorem Allows.of_links {c d : Context H} {r : EStateM.Result (Exit ε) (Context H) α}
    (h : K.Allows d r) (hl : K.Links c d) : K.Allows c r := by
  cases r with
  | ok a e => exact ⟨h.1, K.trans hl h.2⟩
  | error exit e => exact ⟨⟨h.1.1, K.trans hl h.1.2⟩, h.2⟩

theorem Allows.after {run : Run ε H α} {c : Context H} (h : K.Allows c (run c)) :
    K.Holds (run.after c) ∧ K.Links c (run.after c) := by
  cases hr : run c with
  | ok a d =>
      rw [hr] at h
      rw [Run.after_of_ok hr]
      exact h
  | error exit d =>
      rw [hr] at h
      rw [Run.after_of_error hr]
      exact h.1

/-- When every fault is allowed, the context that the run leaves decides. -/
theorem Allows.of_after {run : Run ε H α} {c : Context H}
    (hf : ∀ fault, K.Faults fault) (h : K.Holds (run.after c) ∧ K.Links c (run.after c)) :
    K.Allows c (run c) := by
  cases hr : run c with
  | ok a d =>
      rw [Run.after_of_ok hr] at h
      exact h
  | error exit d =>
      rw [Run.after_of_error hr] at h
      exact ⟨h, fun fault _ => hf fault⟩

theorem Allows.bind {run : Run ε H α} {next : α -> Run ε H β} {c : Context H}
    (h : K.Allows c (run c)) (hn : ∀ a, Run.Keeps K (next a)) :
    K.Allows c ((run >>= next) c) := by
  cases he : run c with
  | ok a d =>
      rw [he] at h
      rw [Run.bind_of_ok he]
      exact (hn a d h.1).of_links h.2
  | error exit d =>
      rw [he] at h
      rw [Run.bind_of_error he]
      exact h

theorem Allows.signalling {run : Run Failure H α} {c : Context H} (h : K.Allows c (run c)) :
    K.Allows c (run.signalling c) := by
  unfold Run.signalling
  cases he : run c with
  | ok a d =>
      rw [he] at h
      exact h
  | error exit d =>
      rw [he] at h
      cases exit with
      | exhausted => exact ⟨h.1, fun _ hx => by cases hx⟩
      | raised failure => exact ⟨h.1, fun _ hx => by cases hx⟩
      | fault fault => exact ⟨h.1, fun f hx => by cases hx; exact h.2 fault rfl⟩

theorem Allows.recordingBacktrace {run : Run Failure H α} {c : Context H}
    (h : K.Allows c (run c)) : K.Allows c (recordingBacktrace run c) := by
  unfold ExecutionContext.recordingBacktrace
  cases he : run c with
  | ok a d =>
      rw [he] at h
      exact h
  | error exit d =>
      rw [he] at h
      cases exit with
      | raised failure => exact ⟨h.1, fun _ hx => by cases hx⟩
      | exhausted => exact h
      | fault fault => exact h

end Contract

namespace Run.Keeps

variable {K : Contract H}

/-! ## Runs that change nothing -/

theorem pure (a : α) : Keeps K (Pure.pure a : Run ε H α) :=
  fun _ hc => K.allows_ok hc a

theorem raise (signal : ε) : Keeps K (Run.raise signal : Run ε H α) :=
  fun _ hc => K.allows_raised hc signal

theorem exhausted : Keeps K (Run.exhausted : Run ε H α) :=
  fun _ hc => K.allows_exhausted hc

theorem get : Keeps K (MonadState.get : Run ε H (Context H)) :=
  fun c hc => K.allows_ok hc c

/-! ## Sequence and recovery -/

theorem bind {run : Run ε H α} {next : α -> Run ε H β} (h : Keeps K run)
    (hn : ∀ a, Keeps K (next a)) : Keeps K (run >>= next) :=
  fun c hc => (h c hc).bind hn

theorem recover {run : Run ε H α} {handler : Exit ε -> Run ε H α} (h : Keeps K run)
    (hn : ∀ exit, Keeps K (handler exit)) : Keeps K (run.recover handler) := by
  intro c hc
  have hr := h c hc
  unfold Run.recover
  cases he : run c with
  | ok a d =>
      rw [he] at hr
      exact hr
  | error exit d =>
      rw [he] at hr
      cases exit with
      | exhausted => exact hr
      | raised signal => exact (hn _ d hr.1.1).of_links hr.1.2
      | fault fault => exact (hn _ d hr.1.1).of_links hr.1.2

end Run.Keeps

end ExecutionContext
