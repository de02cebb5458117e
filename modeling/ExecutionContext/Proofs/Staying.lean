import ExecutionContext.Proofs.ConstantLookup
import ExecutionContext.Proofs.Operations

/-! # Operations that stay in their namespace

Of the single operations of a context only two replace a namespace or the module of one. The others
leave the namespaces of the context and of its frames alone; a new frame gets the present namespace;
and no name loses what it is bound to. So a rooted context stays rooted, and what `Object` binds
stays bound.
-/

namespace ExecutionContext

variable {H : Host} {ε α β : Type}

/-! ## Staying -/

/-- What an operation that stays in its namespace leaves of the context that it finds. -/
structure Context.Stays (c d : Context H) : Prop where
  started : d.started = c.started
  core : d.core = c.core
  topNamespace : d.topNamespace = c.topNamespace
  ns : d.ns = c.ns
  levels : ∀ level, c.levels.Has level ->
    d.levels.Has level ∧ d.levels.read level = c.levels.read level
  cells : ∀ frame, c.frameCells.Has frame ->
    d.frameCells.Has frame ∧ (d.frameCells.read frame).ns = (c.frameCells.read frame).ns
  fresh : ∀ frame, d.frameCells.Has frame ->
    c.frameCells.Has frame ∨ (d.frameCells.read frame).ns = c.ns
  frames : ∀ frame ∈ d.frames.entries, frame ∈ c.frames.entries ∨ d.frameCells.Has frame
  blocks : ∀ block ∈ d.blocks.entries, block ∈ c.blocks.entries ∨ d.frameCells.Has block.frame
  heap : c.heap.KeepsNames d.heap

namespace Context

variable {c d e : Context H} {top : Ref .level} {core : Catalogue CoreClass}

def lexical (c : Context H) :=
  (c.started, c.core, c.topNamespace, c.ns, c.levels, c.frameCells, c.frames.entries,
    c.blocks.entries, c.heap.modules)

theorem Stays.of_lexical (h : d.lexical = c.lexical) : c.Stays d := by
  simp only [lexical, Prod.mk.injEq] at h
  obtain ⟨hstarted, hcore, htop, hns, hlevels, hcells, hframes, hblocks, hmodules⟩ := h
  refine ⟨hstarted, hcore, htop, hns, fun level hlevel => ?_, fun frame hframe => ?_,
    fun frame hframe => ?_, fun frame hframe => ?_, fun block hblock => ?_, .of_modules hmodules⟩
  · rw [hlevels]
    exact ⟨hlevel, rfl⟩
  · rw [hcells]
    exact ⟨hframe, rfl⟩
  · rw [hcells] at hframe
    exact Or.inl hframe
  · rw [hframes] at hframe
    exact Or.inl hframe
  · rw [hblocks] at hblock
    exact Or.inl hblock

theorem Stays.refl (c : Context H) : c.Stays c :=
  .of_lexical rfl

theorem Stays.trans (h : c.Stays d) (h' : d.Stays e) : c.Stays e where
  started := h'.started.trans h.started
  core := h'.core.trans h.core
  topNamespace := h'.topNamespace.trans h.topNamespace
  ns := h'.ns.trans h.ns
  levels level hlevel := by
    obtain ⟨hd, hread⟩ := h.levels level hlevel
    obtain ⟨he, hread'⟩ := h'.levels level hd
    exact ⟨he, hread'.trans hread⟩
  cells frame hframe := by
    obtain ⟨hd, hns⟩ := h.cells frame hframe
    obtain ⟨he, hns'⟩ := h'.cells frame hd
    exact ⟨he, hns'.trans hns⟩
  fresh frame hframe := by
    rcases h'.fresh frame hframe with hd | hpresent
    · rcases h.fresh frame hd with hc | hpresent
      · exact Or.inl hc
      · exact Or.inr ((h'.cells frame hd).2.trans hpresent)
    · exact Or.inr (hpresent.trans h.ns)
  frames frame hframe := by
    rcases h'.frames frame hframe with hd | hhas
    · exact (h.frames frame hd).imp_right fun hhas => (h'.cells frame hhas).1
    · exact Or.inr hhas
  blocks block hblock := by
    rcases h'.blocks block hblock with hd | hhas
    · exact (h.blocks block hd).imp_right fun hhas => (h'.cells block.frame hhas).1
    · exact Or.inr hhas
  heap := h.heap.trans h'.heap

theorem Rooted.stays (hc : c.Rooted top core) (h : c.Stays d) : d.Rooted top core where
  started := h.started.trans hc.started
  core_eq := h.core.trans hc.core_eq
  object := h.heap.modules _ hc.object
  topNamespace := h.topNamespace.trans hc.topNamespace
  level := (h.levels top hc.level).1
  module := (h.levels top hc.level).2.trans hc.module
  ns := by
    rw [h.ns]
    exact hc.ns
  cells frame hframe := by
    rcases h.fresh frame hframe with hold | hpresent
    · rw [(h.cells frame hold).2]
      exact hc.cells frame hold
    · rw [hpresent]
      exact hc.ns
  first := (h.cells default hc.first).1
  frames frame hframe := by
    rcases h.frames frame hframe with hold | hhas
    · exact (h.cells frame (hc.frames frame hold)).1
    · exact hhas
  blocks block hblock := by
    rcases h.blocks block hblock with hold | hhas
    · exact (h.cells block.frame (hc.blocks block hold)).1
    · exact hhas

/-- What `Object` binds stays bound. -/
theorem Rooted.bound_stays (hc : c.Rooted top core) (h : c.Stays d) {name : String}
    (hbound : (c.topConstant? name).isSome = true) : (d.topConstant? name).isSome = true := by
  rw [hc.topConstant?, hc.module] at hbound
  rw [(hc.stays h).topConstant?, (hc.stays h).module]
  exact h.heap.bound _ name hbound

end Context

def Contract.staying (top : Ref .level) (core : Catalogue CoreClass) : Contract H where
  Holds c := c.Rooted top core
  Links := Context.Stays
  Faults _ := True
  refl := .refl
  trans := .trans

def Run.Stays (run : Run ε H α) : Prop :=
  ∀ top core, run.Keeps (.staying top core)

namespace Run.Stays

theorem of_after {run : Run ε H α}
    (h : ∀ (c : Context H) top core, c.Rooted top core -> c.Stays (run.after c)) : run.Stays := by
  intro top core c hc
  have hstays := h c top core hc
  exact Contract.Allows.of_after (fun _ => trivial) ⟨hc.stays hstays, hstays⟩

theorem stays {run : Run ε H α} (h : run.Stays) {c : Context H} {top : Ref .level}
    {core : Catalogue CoreClass} (hc : c.Rooted top core) : c.Stays (run.after c) :=
  (Contract.Allows.after (h top core c hc)).2

theorem of_looks {run : Run ε H α} (h : run.Looks) : run.Stays := by
  refine of_after fun c _ _ _ => ?_
  rcases h c with ⟨a, hr⟩ | ⟨exit, hr⟩
  · rw [after_of_ok hr]
    exact .refl c
  · rw [after_of_error hr]
    exact .refl c

theorem of_ok {run : Run ε H α} (h : ∀ (c : Context H) top core, c.Rooted top core ->
    ∃ a d, run c = .ok a d ∧ c.Stays d) : run.Stays := by
  refine of_after fun c top core hc => ?_
  obtain ⟨a, d, hr, hstays⟩ := h c top core hc
  rw [after_of_ok hr]
  exact hstays

/-- The run changes nothing that lookups of constants depend on. -/
theorem of_lexical {run : Run ε H α} (h : ∀ c : Context H, (run.after c).lexical = c.lexical) :
    run.Stays :=
  of_after fun c _ _ _ => .of_lexical (h c)

theorem modifyGet {change : Context H -> α × Context H}
    (h : ∀ c : Context H, (change c).2.lexical = c.lexical) :
    (MonadStateOf.modifyGet change : Run ε H α).Stays :=
  of_lexical h

theorem bind {run : Run ε H α} {next : α -> Run ε H β} (h : run.Stays)
    (hn : ∀ a, (next a).Stays) : (run >>= next).Stays :=
  fun top core => Run.Keeps.bind (h top core) fun a => hn a top core

theorem pure (a : α) : (Pure.pure a : Run ε H α).Stays :=
  fun _ _ => Run.Keeps.pure a

end Run.Stays

/-! ## Changes that stay -/

open Run

theorem Stack.mem_entries_of_pop {stack rest : Stack α} {entry other : α}
    (h : stack.pop = .ok (entry, rest)) (hmem : other ∈ rest.entries) : other ∈ stack.entries := by
  unfold Stack.pop at h
  cases hlive : stack.live with
  | nil => simp [hlive] at h
  | cons top live =>
      simp only [hlive, Except.ok.injEq, Prod.mk.injEq] at h
      rw [← h.2] at hmem
      rw [Stack.entries, hlive]
      exact List.mem_cons_of_mem _ hmem

theorem Context.stays_openFrame (c : Context H) (frame : Frame) (h : frame.ns = c.ns) :
    c.Stays { c with
      frameCells := (c.frameCells.alloc frame).2
      frames := c.frames.push (c.frameCells.alloc frame).1 } where
  started := rfl
  core := rfl
  topNamespace := rfl
  ns := rfl
  levels _ hlevel := ⟨hlevel, rfl⟩
  cells other hother := by
    refine ⟨hother.alloc frame, ?_⟩
    rw [Arena.read_alloc_of_has hother]
  fresh other hother := by
    by_cases hold : c.frameCells.Has other
    · exact Or.inl hold
    · have hnew : other = (c.frameCells.alloc frame).1 := by
        simp only [Arena.Has, Arena.size_alloc] at hother hold
        have hindex : other.index = c.frameCells.size := by omega
        exact congrArg Ref.mk hindex
      rw [hnew, Arena.read_alloc_self]
      exact Or.inr h
  frames other hother := by
    rcases List.mem_cons.mp hother with hnew | hold
    · rw [hnew]
      exact Or.inr (Arena.has_alloc _ _)
    · exact Or.inl hold
  blocks _ hblock := Or.inl hblock
  heap := .refl _

theorem Context.stays_making (c : Context H) (object : Ref .module) (made : Module) :
    c.Stays (c.making object made) :=
  { Context.Stays.refl c with
    heap := (Heap.KeepsNames.adding c.heap made).trans (.setConstant _ _ _ _) }

theorem Context.stays_binding (c : Context H) (object : Ref .module) (name : String)
    (value : Value) : c.Stays (c.binding object name value) :=
  { Context.Stays.refl c with heap := .setConstant _ _ _ _ }

/-- The effects that may leave the namespace: a change of it or of a frame's, changes through
handles that may do either or unbind a name, and a block that was kept elsewhere, which may have
captured a frame of another context. -/
def Effect.straying : List Effect :=
  [.pushBlock, .ns, .naming, .values, .frames, .levels]

theorem Context.Change.stays {effects : List Effect} {c d : Context H} {top : Ref .level}
    {core : Catalogue CoreClass} (h : c.Change effects d)
    (hno : ∀ effect ∈ effects, effect ∉ Effect.straying) (hc : c.Rooted top core) : c.Stays d := by
  cases h with
  | start processId _ =>
      have hsame : c.start processId = c := by
        unfold Context.start
        rw [hc.started, if_pos rfl]
      rw [hsame]
      exact .refl c
  | pushFrame frame _ hns => exact c.stays_openFrame frame hns
  | popFrame _ hpop =>
      exact { Context.Stays.refl c with
        frames := fun _ hframe => Or.inl (Stack.mem_entries_of_pop hpop hframe) }
  | popBlock _ hpop =>
      exact { Context.Stays.refl c with
        blocks := fun _ hblock => Or.inl (Stack.mem_entries_of_pop hpop hblock) }
  | making _ hkeeps => exact { Context.Stays.refl c with heap := hkeeps }
  | pushBlock block hmem => exact absurd (by decide) (hno _ hmem)
  | ns ns hmem => exact absurd (by decide) (hno _ hmem)
  | naming ns hmem _ => exact absurd (by decide) (hno _ hmem)
  | values heap hmem => exact absurd (by decide) (hno _ hmem)
  | frames cells hmem => exact absurd (by decide) (hno _ hmem)
  | levels levels hmem => exact absurd (by decide) (hno _ hmem)
  | _ => exact .of_lexical rfl

theorem Operation.stays {effects : List Effect} {run : Run ε H α} (h : Operation effects run)
    (hno : ∀ effect ∈ effects, effect ∉ Effect.straying) : run.Stays := fun _ _ =>
  h.within.keepsAll (fun _ => trivial) fun hc hchange =>
    have hstays := hchange.stays hno hc
    ⟨hc.stays hstays, hstays⟩

/-! ## Runs that are no single operations -/

theorem newArray_stays (items : List Value) : (newArray items : Run ε H _).Stays :=
  .modifyGet fun _ => rfl

theorem packArgs_stays (args : List Value) : (packArgs args : Run ε H _).Stays := by
  refine .of_lexical fun c => ?_
  match args with
  | [] => rfl
  | [_] => rfl
  | _ :: _ :: _ => rfl

theorem setConstant_stays (module : Ref .module) (name : String) (value : Value) :
    (setConstant module name value : Run ε H Unit).Stays :=
  .of_ok fun c _ _ _ => ⟨_, _, rfl, c.stays_binding module name value⟩

end ExecutionContext
