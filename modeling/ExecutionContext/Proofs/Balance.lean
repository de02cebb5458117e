import ExecutionContext.Proofs.Program

/-! # Every operation gives the stacks back

A callback is balanced when it leaves the stacks as it found them in every way it can
end, except that it may replace the scope on top. Around balanced callbacks each of
the six operations is balanced again, and its restoring steps meet no fault. A yield
and the body of a module give more back than that.
-/

namespace ExecutionContext

variable {H : Host} {F : Fault -> Prop}

/-! ## One layer -/

theorem packArgs_balanced (args : List Value) :
    (packArgs args : Run Signal H Value).Keeps (Contract.balanced F) :=
  fun _ hc => ⟨⟨hc.frames, hc.scopes, hc.marks, hc.blocks⟩, rfl, rfl, rfl, rfl, .refl _⟩

theorem Evaluator.Keeps.runCode {K : Contract H} {eval : Evaluator H} (he : eval.Keeps K)
    (hp : ∀ args, (packArgs args : Run Signal H Value).Keeps K) (code : Code H.Body)
    (receiver : Value) (args : List Value) : (runCode eval code receiver args).Keeps K := by
  cases code with
  | body body => exact he.body body receiver args
  | callback body data => exact (hp args).bind fun packed => he.callback body packed data

namespace Layer

theorem codeAt_keeps {K : Contract H} {eval : Evaluator H} (he : eval.Keeps K)
    (hp : ∀ args, (packArgs args : Run Signal H Value).Keeps K) {code : Run Signal H Value}
    (hcode : code.Keeps K) (c : Context H) (l : Layer H) : (l.codeAt eval code c).Keeps K := by
  cases l with
  | yield value receiver cls strict =>
      simp only [codeAt]
      cases beginYield eval value receiver cls strict c with
      | ok a d => exact he.runCode hp a.block.code a.self a.args
      | error exit d => exact hcode
  | _ => exact hcode

theorem rounds_balanced {eval : Evaluator H} (he : eval.Keeps (.balanced F))
    {code : Run Signal H Value} (hcode : code.Keeps (.balanced F)) {c inside : Context H}
    (hc : c.Based) (l : Layer H) (hi : l.Enters eval c inside) :
    (Contract.balanced F).Allows inside (l.rounds (l.codeAt eval code c) eval.limit inside) :=
  rounds_keeps (codeAt_keeps he packArgs_balanced hcode c l) eval.limit l inside
    (hi.based hc he.bind)

/-- What the operation gives back beyond the entries of the stacks below the top scope. -/
def GivesBack (c d : Context H) : Layer H -> Prop
  | .yield .. =>
      d.scopes = c.scopes ∧ d.ns = c.ns ∧ d.chain = c.chain ∧ d.classes = c.classes ∧
        d.blocks = c.blocks
  | .openModule _ => d.scopes = c.scopes ∧ d.ns = c.ns ∧ d.classes = c.classes
  | _ => True

/-- Balance, and what the operation gives back beyond it. -/
def restoring (F : Fault -> Prop) (l : Layer H) : Contract H where
  Holds := Context.Based
  Links c d := c.SameStacks d ∧ l.GivesBack c d
  Faults := F
  refl c := ⟨.refl c, by cases l <;> simp [GivesBack]⟩
  trans h₁ h₂ := ⟨h₁.1.trans h₂.1, by cases l <;> simp_all [GivesBack]⟩

theorem around_keeps_restoring {eval : Evaluator H} (he : eval.Keeps (.balanced F))
    {code : Run Signal H Value} (hcode : code.Keeps (.balanced F)) (l : Layer H) :
    (l.around eval code).Keeps (l.restoring F) := by
  intro c hc
  have hf : ∀ fault, (Contract.balanced F : Contract H).Faults fault ->
      (l.restoring F).Faults fault := fun _ h => h
  refine around_allows hc he.bind hf l code ?_ ?_ ?_
  · intro inside hi
    exact l.rounds_balanced he hcode hc hi
  · intro inside d hi hd hl
    have hsame := hi.sameStacks_giveBack hl
    refine ⟨hl, hsame.based hc, hsame, ?_⟩
    cases l with
    | yield value receiver cls strict => exact ⟨rfl, rfl, rfl, rfl, rfl⟩
    | openModule module => exact ⟨rfl, rfl, rfl⟩
    | _ => trivial
  · intro exit d hr
    have hsame := hr.sameStacks
    refine ⟨⟨hsame.based hc, hsame, ?_⟩, hr.faults hc he.bind⟩
    cases l with
    | yield value receiver cls strict =>
        rcases hr with ⟨_, rfl, _⟩ | ⟨block, bound, _, _, rfl⟩
        · exact ⟨rfl, rfl, rfl, rfl, rfl⟩
        · exact ⟨rfl, rfl, rfl, rfl, rfl⟩
    | openModule module => obtain ⟨rfl, _⟩ := hr; exact ⟨rfl, rfl, rfl⟩
    | _ => trivial

theorem around_keeps_balanced {eval : Evaluator H} (he : eval.Keeps (.balanced F))
    {code : Run Signal H Value} (hcode : code.Keeps (.balanced F)) (l : Layer H) :
    (l.around eval code).Keeps (.balanced F) := by
  intro c hc
  have h := around_keeps_restoring he hcode l c hc
  cases hr : l.around eval code c with
  | ok value d => rw [hr] at h; exact ⟨h.1, h.2.1⟩
  | error exit d => rw [hr] at h; exact ⟨⟨h.1.1, h.1.2.1⟩, h.2⟩

end Layer

/-! ## Programs -/

/-- Balance over a recorded context does not look at the journal. -/
theorem Run.Keeps.recorded_balanced {β σ ε α : Type} {run : Run ε (Plain β σ) α}
    (h : run.Keeps (.balanced F)) : run.recorded.Keeps (.balanced F) := by
  intro c hc
  have hr := h c.plain hc.plain
  unfold Run.recorded
  cases he : run c.plain with
  | ok a d =>
      rw [he] at hr
      obtain ⟨hd, hl⟩ := hr
      exact ⟨⟨hd.frames, hd.scopes, hd.marks, hd.blocks⟩, hl.frames, hl.blocks, hl.marks, hl.saved,
        hl.scopes⟩
  | error exit d =>
      rw [he] at hr
      obtain ⟨⟨hd, hl⟩, hf⟩ := hr
      exact ⟨⟨⟨hd.frames, hd.scopes, hd.marks, hd.blocks⟩, hl.frames, hl.blocks, hl.marks, hl.saved,
        hl.scopes⟩, hf⟩

theorem note_balanced {β σ ε : Type} (change : Context (Recorded β σ) -> Journal β σ) :
    (Run.note change : Run ε (Recorded β σ) Unit).Keeps (.balanced F) :=
  fun _ hc => ⟨⟨hc.frames, hc.scopes, hc.marks, hc.blocks⟩, rfl, rfl, rfl, rfl, .refl _⟩

theorem Evaluator.Keeps.watching_balanced {β σ : Type} {eval : Evaluator (Recorded β σ)}
    (he : eval.Keeps (.balanced F)) (yielding : Yielding β σ) :
    (eval.watching yielding).Keeps (.balanced F) where
  body _ _ _ := (note_balanced _).bind fun _ => he.body _ _ _
  callback _ _ _ := (note_balanced _).bind fun _ => he.callback _ _ _
  bind _ _ _ _ := (note_balanced _).bind fun _ => he.bind _ _ _ _

namespace Program

variable {β σ : Type}

theorem captureBlock_balanced (params : Params) (receiver : Option Value) (body : β) :
    (captureBlock params receiver body : Run Signal (Recorded β σ) Nat).Keeps (.balanced F) := by
  intro c hc
  rw [captureBlock_eq hc]
  exact ⟨⟨hc.frames, hc.scopes, hc.marks, hc.blocks⟩, rfl, rfl, rfl, rfl, .refl _⟩

theorem sustains_balanced {eval : Evaluator (Recorded β σ)} (he : eval.Keeps (.balanced F)) :
    Sustains (.balanced F) eval (fun op => op.Keeps (.balanced F)) where
  point pending := note_balanced _
  leaf h := h.recorded_balanced
  capture := captureBlock_balanced
  call number code hcode := by
    refine Run.Keeps.get.bind fun c => ?_
    cases c.host.births[number]? with
    | some birth => exact Layer.around_keeps_balanced he hcode (.withBlock birth.block)
    | none => exact Run.Keeps.pure _
  iteration callback data hdriver := by
    refine Run.Keeps.bind (Run.Keeps.get.bind fun c => ?_) fun code => ?_
    · exact (note_balanced _).bind fun _ => Run.Keeps.pure _
    · exact Layer.around_keeps_balanced he (hdriver code.number) (.iterate code data)
  yield value receiver cls strict := by
    refine Run.Keeps.get.bind fun c => ?_
    exact Layer.around_keeps_balanced (he.watching_balanced _) Run.Keeps.exhausted
      (.yield value receiver cls strict)
  method attached receiver name code hcode :=
    Layer.around_keeps_balanced he ((note_balanced _).bind fun _ => hcode) (.invoke receiver name)
  moduleBody module code hcode :=
    Run.Keeps.get.bind fun _ => Layer.around_keeps_balanced he
      ((note_balanced _).bind fun _ => hcode) (.openModule module)

end Program

/-! ## The main result -/

/-- Around balanced callbacks the six operations are balanced, in every way that they can end, and
so are the programs nested from them. -/
theorem balanced_nesting (F : Fault -> Prop) :
    (∀ {H : Host} {eval : Evaluator H} {code : Run Signal H Value},
      eval.Keeps (.balanced F) -> code.Keeps (.balanced F) ->
        (∀ value receiver cls strict,
          (yieldBlock eval value receiver cls strict).Keeps (.balanced F)) ∧
        (∀ driver data1 callback data2, (driver data1).Keeps (.balanced F) ->
          (iterate eval driver data1 callback data2).Keeps (.balanced F)) ∧
        (∀ block, (callWithBlock eval block code).Keeps (.balanced F)) ∧
        (∀ receiver method, (invoke receiver method code).Keeps (.balanced F)) ∧
        (∀ module, (openModule module code).Keeps (.balanced F)) ∧
        (∀ tag, (catchTag tag code).Keeps (.balanced F)) ∧
        -- An operation ends as the runs of its code ended, unless it is refused. What a yield and
        -- the body of a module give back, they give back exactly.
        ∀ c : Context H, c.Based ->
          (∀ l : Layer H,
            (∃ inside, l.Enters eval c inside ∧ l.around eval code c =
              ((l.rounds (l.codeAt eval code c) eval.limit).leaving (l.giveBack c)) inside) ∨
            ∃ exit d, l.around eval code c = .error exit d ∧ l.Refuses eval c exit d) ∧
          (∀ value receiver cls strict,
            let d := (yieldBlock eval value receiver cls strict).after c
            d.scopes = c.scopes ∧ d.ns = c.ns ∧ d.chain = c.chain ∧ d.classes = c.classes ∧
              d.blocks = c.blocks) ∧
          ∀ module,
            let d := (openModule module code).after c
            d.scopes = c.scopes ∧ d.ns = c.ns ∧ d.classes = c.classes) ∧
    ∀ {β σ : Type} {codebase : Codebase β σ} {binder : Binder β σ} (program : Program β σ),
      (∀ pattern receiver value strict,
        (binder pattern receiver value strict).Keeps (.balanced F)) ->
      codebase.All (fun op => op.Keeps (.balanced F)) ->
      program.All (fun op => op.Keeps (.balanced F)) ->
      ∀ depth pending,
        (program.run (codebase.evaluator binder depth) pending).Keeps (.balanced F) := by
  refine ⟨?_, ?_⟩
  · intro H eval code he hcode
    refine ⟨fun value receiver cls strict => ?_, fun driver data1 callback data2 hdriver => ?_,
      fun block => ?_, fun receiver method => ?_, fun module => ?_, fun tag => ?_, fun c hc => ⟨fun l => ?_,
      fun value receiver cls strict => ?_, fun module => ?_⟩⟩
    · exact Layer.around_keeps_balanced he hcode (.yield value receiver cls strict)
    · exact Layer.around_keeps_balanced he hdriver (.iterate callback data2)
    · exact Layer.around_keeps_balanced he hcode (.withBlock block)
    · exact Layer.around_keeps_balanced he hcode (.invoke receiver method)
    · exact Layer.around_keeps_balanced he hcode (.openModule module)
    · exact Layer.around_keeps_balanced he hcode (.catchTag tag)
    · exact Layer.around_cases hc he.bind l code fun inside hi =>
        (l.rounds_balanced he hcode hc hi).after.2
    · have h := Layer.around_keeps_restoring he hcode (.yield value receiver cls strict) c hc
      exact h.after.2.2
    · have h := Layer.around_keeps_restoring he hcode (.openModule module) c hc
      exact h.after.2.2
  · intro β σ codebase binder program hbind hcodebase hprogram depth pending
    have he := Codebase.evaluator_keeps hcodebase
      (fun pattern receiver value strict => (hbind pattern receiver value strict).recorded_balanced)
      (fun _ he => Program.sustains_balanced he) depth
    exact (Program.sustains_balanced he).run_keeps program hprogram pending

/-- A call restarted by `retry`, a yield restarted by `redo` and a small program are balanced, and
meet no fault. -/
theorem balanced_nesting_bare :
    (callWithBlock (.raising .redo) (Context.bare.capture .undeclared (.body ()) .nil)
      (Run.raise .retry)).Keeps (Contract.balanced fun _ => False) ∧
    ((yieldBlock (.raising .redo) none none none false).after Context.bare).scopes =
      Context.bare.scopes ∧
    ((Program.yieldingOnce 2).run (Codebase.nesting.evaluator (fun _ _ _ _ => return ()) 3)
      none).Keeps (Contract.balanced fun _ => False) := by
  obtain ⟨operations, programs⟩ := balanced_nesting fun _ => False
  have heval : (Evaluator.raising .redo).Keeps (Contract.balanced fun _ => False) :=
    ⟨fun _ _ _ => .raise _, fun _ _ _ => .raise _, fun _ _ _ _ => .pure _⟩
  obtain ⟨_, _, hcall, _, _, _, hgiven⟩ := operations heval (Run.Keeps.raise .retry)
  obtain ⟨_, hyield, _⟩ := hgiven Context.bare Context.based_bare
  have hcode : Codebase.nesting.All (fun op => op.Keeps (Contract.balanced fun _ => False)) := by
    refine ⟨fun code _ _ => ?_, fun _ _ _ => Run.Keeps.pure _⟩
    cases code with
    | zero => exact Run.Keeps.pure _
    | succ code => exact fun _ => trivial
  refine ⟨hcall _, (hyield none none none false).1, ?_⟩
  exact programs (.yieldingOnce 2) (fun _ _ _ _ => .pure _) hcode (fun _ => trivial) 3 none

end ExecutionContext
