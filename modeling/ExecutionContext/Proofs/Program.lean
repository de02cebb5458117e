import ExecutionContext.Proofs.Opening

/-! # Programs over a context, and the record of their runs

A program sequences and nests the six operations; at its leaves are operations of
any other sort. Its blocks are numbered in the order of their creation, and the code
of a block, run on a receiver and arguments, is a program again. The run of a program
keeps a journal of what happened: the points at which code ran, the frames of the
calls, the blocks created, and the passes through them. A program cannot see its
journal, which travels in the part of the context that the operations leave alone.
-/

namespace ExecutionContext

/-- Code, under the number of the block that it was captured for. -/
structure Numbered (β : Type) where
  number : Nat
  body : β

variable {β σ : Type}

def Code.number : Code (Numbered β) -> Nat
  | .body code => code.number
  | .callback code _ => code.number

abbrev Plain (β σ : Type) : Host :=
  { Body := Numbered β, State := σ }

/-- A point at which code runs. `pending` is the number of a block attached for the next call,
when the code is the one that makes this call. -/
structure Point (β σ : Type) where
  scene : Context (Plain β σ)
  pending : Option Nat

/-- A frame, the block attached to the call that created it, and the context its code began in. -/
structure Call (β σ : Type) where
  frame : Ref .frame
  attached : Option Nat
  scene : Context (Plain β σ)

structure Birth (β σ : Type) where
  block : Block (Numbered β)
  scene : Context (Plain β σ)

structure Yielding (β σ : Type) where
  site : Context (Plain β σ)
  override : Option Value
  cls : Option (Ref .module)

/-- The start of a pass through the body of a block. Callbacks have no receiver. -/
structure Pass (β σ : Type) where
  yielding : Yielding β σ
  number : Nat
  receiver : Option Value
  scene : Context (Plain β σ)

structure Binding (β σ : Type) where
  yielding : Yielding β σ
  receiver : Value
  scene : Context (Plain β σ)

/-- What happened in a run so far, beside the evaluator's own state. -/
structure Journal (β σ : Type) where
  own : σ
  points : List (Point β σ) := []
  calls : List (Call β σ) := []
  births : List (Birth β σ) := []
  passes : List (Pass β σ) := []
  bindings : List (Binding β σ) := []

/-- Numbered code, and a journal around the evaluator's own state. -/
abbrev Recorded (β σ : Type) : Host :=
  { Body := Numbered β, State := Journal β σ }

namespace Context

def plain (c : Context (Recorded β σ)) : Context (Plain β σ) :=
  { c with host := c.host.own }

theorem Based.plain {c : Context (Recorded β σ)} (hc : c.Based) : c.plain.Based :=
  ⟨hc.frames, hc.scopes, hc.marks, hc.blocks⟩

/-- The context with a journal around the evaluator's own state. -/
def recorded (c : Context (Plain β σ)) (journal : Journal β σ) : Context (Recorded β σ) :=
  { c with host := { journal with own := c.host } }

def journaling (c : Context (Recorded β σ)) (journal : Journal β σ) : Context (Recorded β σ) :=
  { c with host := journal }

end Context

namespace Run

variable {ε α : Type}

/-- A run that cannot see the journal. -/
def recorded (run : Run ε (Plain β σ) α) : Run ε (Recorded β σ) α := fun c =>
  match run c.plain with
  | .ok a d => .ok a (d.recorded c.host)
  | .error exit d => .error exit (d.recorded c.host)

def note (change : Context (Recorded β σ) -> Journal β σ) : Run ε (Recorded β σ) Unit :=
  modify fun c => c.journaling (change c)

end Run

namespace Journal

variable {ε : Type}

def call? (journal : Journal β σ) (frame : Ref .frame) : Option (Call β σ) :=
  journal.calls.find? (fun call => decide (call.frame = frame))

/-- The block attached to the call whose frame is on top. -/
def attached? (journal : Journal β σ) {H : Host} (c : Context H) : Option Nat := do
  let call ← journal.call? (← c.frames.top?)
  call.attached

def notePoint (pending : Option Nat) : Run ε (Recorded β σ) Unit :=
  Run.note fun c => { c.host with points := c.host.points ++ [⟨c.plain, pending⟩] }

def noteCall (attached : Option Nat) : Run ε (Recorded β σ) Unit :=
  Run.note fun c =>
    { c.host with
      calls := c.host.calls ++ [⟨c.frames.top?.getD default, attached, c.plain⟩] }

def noteBirth (block : Block (Numbered β)) (scene : Context (Plain β σ)) :
    Run ε (Recorded β σ) Unit :=
  Run.note fun c => { c.host with births := c.host.births ++ [⟨block, scene⟩] }

def notePass (yielding : Yielding β σ) (number : Nat) (receiver : Option Value) :
    Run ε (Recorded β σ) Unit :=
  Run.note fun c =>
    { c.host with passes := c.host.passes ++ [⟨yielding, number, receiver, c.plain⟩] }

def noteBinding (yielding : Yielding β σ) (receiver : Value) : Run ε (Recorded β σ) Unit :=
  Run.note fun c =>
    { c.host with bindings := c.host.bindings ++ [⟨yielding, receiver, c.plain⟩] }

end Journal

/-- The evaluator, recording the passes and bindings of one yield. -/
def Evaluator.watching (eval : Evaluator (Recorded β σ)) (yielding : Yielding β σ) :
    Evaluator (Recorded β σ) where
  limit := eval.limit
  runBody := fun code receiver args => do
    Journal.notePass yielding code.number (some receiver)
    eval.runBody code receiver args
  runCallback := fun code args data => do
    Journal.notePass yielding code.number none
    eval.runCallback code args data
  bind := fun pattern receiver value strict => do
    Journal.noteBinding yielding receiver
    eval.bind pattern receiver value strict

structure Evaluator.Keeps {H : Host} (K : Contract H) (eval : Evaluator H) : Prop where
  body : ∀ code receiver args, (eval.runBody code receiver args).Keeps K
  callback : ∀ code args data, (eval.runCallback code args data).Keeps K
  bind : ∀ pattern receiver value strict, (eval.bind pattern receiver value strict).Keeps K

/-! ## Programs -/

inductive Program (β σ : Type) where
  -- Any operation that is not one of the six.
  | perform (op : Run Signal (Plain β σ) Value)
  | andThen (first : Program β σ) (next : Value -> Program β σ)
  -- The rest of the program may depend on the present context.
  | reading (next : Context (Plain β σ) -> Program β σ)
  -- The handler runs when the body ends with a signal or a fault.
  | rescue (body : Program β σ) (handler : Exit Signal -> Program β σ)
  -- A block is created on the current frame's self unless a receiver is given, and the rest of the
  -- program knows it by its number.
  | capture (params : Params) (receiver : Option Value) (body : β) (next : Nat -> Program β σ)
  | withBlock (number : Nat) (call : Program β σ)
  | iterate (driver : Program β σ) (callback : β) (data : Value)
  | yield (value receiver : Option Value) (cls : Option (Ref .module)) (strict : Bool)
  | invoke (receiver : Value) (method : String) (body : Program β σ)
  | openModule (module : Ref .module) (body : Program β σ)
  | catchTag (tag : Value) (body : Program β σ)

abbrev Binder (β σ : Type) :=
  Pattern -> Value -> Value -> Bool -> Run Failure (Plain β σ) Unit

/-- Parameters bound as dynamic variables, whatever the receiver. -/
def Binder.default : Binder β σ := fun pattern _ => bindDynamic pattern

/-- The programs that the code of blocks stands for. -/
structure Codebase (β σ : Type) where
  body : β -> Value -> List Value -> Program β σ
  callback : β -> Value -> Value -> Program β σ

namespace Program

/-- Create the block of an iteration's callback; only its record is needed, since the iteration
creates the block itself. -/
def noteCallback (callback : β) (data : Value) : Run Signal (Recorded β σ) (Numbered β) := do
  let c ← get
  let code : Numbered β := ⟨c.host.births.length, callback⟩
  Journal.noteBirth (c.capture .undeclared (.callback code data) c.topSelf) c.plain
  return code

def captureBlock (params : Params) (receiver : Option Value) (body : β) :
    Run Signal (Recorded β σ) Nat := do
  let c ← get
  let code : Numbered β := ⟨c.host.births.length, body⟩
  let block ←
    match receiver with
    | some receiver => newBlockWithSelf params (.body code) receiver
    | none => newBlock params (.body code)
  Journal.noteBirth block c.plain
  return code.number

def blockOf (c : Context (Recorded β σ)) (params : Params) (receiver : Option Value)
    (code : Code (Numbered β)) : Block (Numbered β) :=
  c.capture params code
    (receiver.getD ((c.frames.top?.map fun frame => (c.frameCells.read frame).self).getD .nil))

def recordingBirth (c : Context (Recorded β σ)) (block : Block (Numbered β)) :
    Context (Recorded β σ) :=
  c.journaling { c.host with births := c.host.births ++ [⟨block, c.plain⟩] }

theorem captureBlock_eq {c : Context (Recorded β σ)} (hc : c.Based) (params : Params)
    (receiver : Option Value) (body : β) : captureBlock params receiver body c =
      .ok c.host.births.length (recordingBirth c
        (blockOf c params receiver (.body ⟨c.host.births.length, body⟩))).capturing := by
  cases receiver with
  | some receiver =>
      simp [captureBlock, newBlockWithSelf_eq hc.capturable, Journal.noteBirth, Run.note, recordingBirth,
        blockOf, Context.capturing, Context.journaling]
  | none =>
      simp [captureBlock, newBlock, newBlockWithSelf_eq hc.capturable, Journal.noteBirth, Run.note,
        recordingBirth, blockOf, Context.capturing, Context.journaling]

theorem noteCallback_eq (c : Context (Recorded β σ)) (callback : β) (data : Value) :
    noteCallback callback data c = .ok ⟨c.host.births.length, callback⟩
      (recordingBirth c (c.capture .undeclared
        (.callback ⟨c.host.births.length, callback⟩ data) c.topSelf)) := by
  simp [noteCallback, Journal.noteBirth, Run.note, recordingBirth]

def callNumbered (eval : Evaluator (Recorded β σ)) (number : Nat)
    (call : Run Signal (Recorded β σ) Value) : Run Signal (Recorded β σ) Value := do
  let c ← get
  match c.host.births[number]? with
  | some birth => callWithBlock eval birth.block call
  | none => return .nil

/-- Iterate over a driver that knows the number of the block attached to it, and its own datum. -/
def iterateNumbered (eval : Evaluator (Recorded β σ))
    (driver : Nat -> Run Signal (Recorded β σ) Value) (callback : β) (data : Value) :
    Run Signal (Recorded β σ) Value := do
  let code ← noteCallback callback data
  ExecutionContext.iterate eval (fun _ => driver code.number) .nil code data

def yieldWatched (eval : Evaluator (Recorded β σ)) (value receiver : Option Value)
    (cls : Option (Ref .module)) (strict : Bool) : Run Signal (Recorded β σ) Value := do
  let c ← get
  yieldBlock (eval.watching ⟨c.plain, receiver, cls⟩) value receiver cls strict

def invokeNoted (attached : Option Nat) (receiver : Value) (method : String)
    (body : Run Signal (Recorded β σ) Value) : Run Signal (Recorded β σ) Value :=
  ExecutionContext.invoke receiver method do
    Journal.noteCall attached
    body

/-- Run the body of a module in a frame that is recorded first, with the block of the call around
it. -/
def openNoted (module : Ref .module) (body : Run Signal (Recorded β σ) Value) :
    Run Signal (Recorded β σ) Value := do
  let c ← get
  ExecutionContext.openModule module do
    Journal.noteCall (c.host.attached? c)
    body

def run (eval : Evaluator (Recorded β σ)) :
    Program β σ -> Option Nat -> Run Signal (Recorded β σ) Value
  | .perform op, pending => do
      Journal.notePoint pending
      op.recorded
  | .andThen first next, pending => do
      let value ← first.run eval pending
      (next value).run eval pending
  | .reading next, pending => do
      let c ← get
      (next c.plain).run eval pending
  | .rescue body handler, pending =>
      (body.run eval pending).recover fun exit => (handler exit).run eval pending
  | .capture params receiver body next, pending => do
      Journal.notePoint pending
      let number ← captureBlock params receiver body
      (next number).run eval pending
  | .withBlock number call, pending => do
      Journal.notePoint pending
      callNumbered eval number (call.run eval (some number))
  | .iterate driver callback data, pending => do
      Journal.notePoint pending
      iterateNumbered eval (fun number => driver.run eval (some number)) callback data
  | .yield value receiver cls strict, pending => do
      Journal.notePoint pending
      yieldWatched eval value receiver cls strict
  | .invoke receiver method body, pending => do
      Journal.notePoint pending
      invokeNoted pending receiver method (body.run eval none)
  | .openModule module body, pending => do
      Journal.notePoint pending
      openNoted module (body.run eval none)
  | .catchTag tag body, pending => do
      Journal.notePoint pending
      ExecutionContext.catchTag tag (body.run eval pending)

def All (Leaf : Run Signal (Plain β σ) Value -> Prop) : Program β σ -> Prop
  | .perform op => Leaf op
  | .andThen first next => first.All Leaf ∧ ∀ value, (next value).All Leaf
  | .reading next => ∀ c, (next c).All Leaf
  | .rescue body handler => body.All Leaf ∧ ∀ exit, (handler exit).All Leaf
  | .capture _ _ _ next => ∀ number, (next number).All Leaf
  | .withBlock _ call => call.All Leaf
  | .iterate driver _ _ => driver.All Leaf
  | .yield .. => True
  | .invoke _ _ body => body.All Leaf
  | .openModule _ body => body.All Leaf
  | .catchTag _ body => body.All Leaf

theorem All.mono {Leaf Other : Run Signal (Plain β σ) Value -> Prop}
    (hl : ∀ {op}, Leaf op -> Other op) {p : Program β σ} (h : p.All Leaf) : p.All Other := by
  induction p with
  | perform op => exact hl h
  | andThen first next ihf ihn => exact ⟨ihf h.1, fun value => ihn value (h.2 value)⟩
  | reading next ih => exact fun c => ih c (h c)
  | rescue body handler ihb ihh => exact ⟨ihb h.1, fun exit => ihh exit (h.2 exit)⟩
  | capture params receiver body next ih => exact fun number => ih number (h number)
  | withBlock number call ih => exact ih h
  | iterate driver callback data ih => exact ih h
  | yield value receiver cls strict => exact h
  | invoke receiver method body ih => exact ih h
  | openModule module body ih => exact ih h
  | catchTag tag body ih => exact ih h

/-- The contract is kept by everything that programs are made of. -/
structure Sustains (K : Contract (Recorded β σ)) (eval : Evaluator (Recorded β σ))
    (Leaf : Run Signal (Plain β σ) Value -> Prop) : Prop where
  point : ∀ pending, (Journal.notePoint pending : Run Signal (Recorded β σ) Unit).Keeps K
  leaf : ∀ {op}, Leaf op -> op.recorded.Keeps K
  capture : ∀ params receiver body, (captureBlock params receiver body).Keeps K
  call : ∀ number {code}, code.Keeps K -> (callNumbered eval number code).Keeps K
  iteration : ∀ {driver} callback data, (∀ number, (driver number).Keeps K) ->
    (iterateNumbered eval driver callback data).Keeps K
  yield : ∀ value receiver cls strict, (yieldWatched eval value receiver cls strict).Keeps K
  method : ∀ attached receiver name {code}, code.Keeps K ->
    (invokeNoted attached receiver name code).Keeps K
  moduleBody : ∀ module {code}, code.Keeps K -> (openNoted module code).Keeps K

theorem Sustains.run_keeps {K : Contract (Recorded β σ)} {eval : Evaluator (Recorded β σ)}
    {Leaf : Run Signal (Plain β σ) Value -> Prop} (h : Sustains K eval Leaf)
    (p : Program β σ) (hp : p.All Leaf) (pending : Option Nat) :
    (p.run eval pending).Keeps K := by
  induction p generalizing pending with
  | perform op => exact (h.point pending).bind fun _ => h.leaf hp
  | andThen first next ihf ihn =>
      exact (ihf hp.1 pending).bind fun value => ihn value (hp.2 value) pending
  | reading next ih => exact Run.Keeps.get.bind fun c => ih c.plain (hp c.plain) pending
  | rescue body handler ihb ihh =>
      exact (ihb hp.1 pending).recover fun exit => ihh exit (hp.2 exit) pending
  | capture params receiver body next ih =>
      exact (h.point pending).bind fun _ =>
        (h.capture params receiver body).bind fun number => ih number (hp number) pending
  | withBlock number call ih => exact (h.point pending).bind fun _ => h.call number (ih hp _)
  | iterate driver callback data ih =>
      exact (h.point pending).bind fun _ => h.iteration callback data fun number => ih hp _
  | yield value receiver cls strict =>
      exact (h.point pending).bind fun _ => h.yield value receiver cls strict
  | invoke receiver method body ih =>
      exact (h.point pending).bind fun _ => h.method pending receiver method (ih hp none)
  | openModule module body ih =>
      exact (h.point pending).bind fun _ => h.moduleBody module (ih hp none)
  | catchTag tag body ih => exact (h.point pending).bind fun _ => (ih hp pending).catchTag tag

end Program

namespace Codebase

/-- The evaluator that runs the code of blocks as programs, with at most that many activations in
one another. -/
def evaluator (code : Codebase β σ) (binder : Binder β σ) : Nat -> Evaluator (Recorded β σ)
  | 0 =>
    { limit := 0
      runBody := fun _ _ _ => Run.exhausted
      runCallback := fun _ _ _ => Run.exhausted
      bind := fun pattern receiver value strict =>
        (binder pattern receiver value strict).recorded }
  | depth + 1 =>
    { limit := depth + 1
      runBody := fun body receiver args =>
        (code.body body.body receiver args).run (code.evaluator binder depth) none
      runCallback := fun body args data =>
        (code.callback body.body args data).run (code.evaluator binder depth) none
      bind := fun pattern receiver value strict =>
        (binder pattern receiver value strict).recorded }

@[simp] theorem evaluator_bind (code : Codebase β σ) (binder : Binder β σ) (depth : Nat)
    (pattern : Pattern) (receiver value : Value) (strict : Bool) :
    (code.evaluator binder depth).bind pattern receiver value strict =
      (binder pattern receiver value strict).recorded := by
  cases depth <;> rfl

def All (code : Codebase β σ) (Leaf : Run Signal (Plain β σ) Value -> Prop) : Prop :=
  (∀ body receiver args, (code.body body receiver args).All Leaf) ∧
  ∀ body args data, (code.callback body args data).All Leaf

theorem All.mono {Leaf Other : Run Signal (Plain β σ) Value -> Prop}
    (hl : ∀ {op}, Leaf op -> Other op) {code : Codebase β σ} (h : code.All Leaf) :
    code.All Other :=
  ⟨fun body receiver args => (h.1 body receiver args).mono hl,
    fun body args data => (h.2 body args data).mono hl⟩

/-- What programs sustain, the codebase's evaluators keep, however deep activations nest. -/
theorem evaluator_keeps {K : Contract (Recorded β σ)}
    {Leaf : Run Signal (Plain β σ) Value -> Prop} {code : Codebase β σ} (hcode : code.All Leaf)
    {binder : Binder β σ}
    (hbind : ∀ pattern receiver value strict,
      (binder pattern receiver value strict).recorded.Keeps K)
    (hs : ∀ depth, (code.evaluator binder depth).Keeps K ->
      Program.Sustains K (code.evaluator binder depth) Leaf)
    (depth : Nat) : (code.evaluator binder depth).Keeps K := by
  induction depth with
  | zero => exact ⟨fun _ _ _ => Run.Keeps.exhausted, fun _ _ _ => Run.Keeps.exhausted, hbind⟩
  | succ depth ih =>
      exact ⟨fun _ _ _ => (hs depth ih).run_keeps _ (hcode.1 _ _ _) none,
        fun _ _ _ => (hs depth ih).run_keeps _ (hcode.2 _ _ _) none, hbind⟩

def starting (config : Config) (errors : ErrorStream) (own : σ) (processId : Int64) :
    Context (Recorded β σ) :=
  (Context.new config errors ({ own := own } : Journal β σ)).start processId

/-- A whole run, with the default binder; the frame on top at its start belongs to no call. -/
def execute (code : Codebase β σ) (program : Program β σ) (depth : Nat) :
    Run Signal (Recorded β σ) Value := do
  Journal.noteCall none
  program.run (code.evaluator .default depth) none

def journal (code : Codebase β σ) (program : Program β σ) (config : Config)
    (errors : ErrorStream) (own : σ) (processId : Int64) (depth : Nat) : Journal β σ :=
  ((code.execute program depth).after (starting config errors own processId)).host

end Codebase

/-! ## A small program -/

def Program.yieldingOnce (code : Nat) : Program Nat Unit :=
  .capture (.pattern (.single "item")) none code fun number =>
    .withBlock number (.invoke .nil "each" (.yield none none none false))

/-- A codebase whose blocks hold such a call in turn, down to a block that does nothing. -/
def Codebase.nesting : Codebase Nat Unit where
  body := fun code _ _ =>
    match code with
    | 0 => .perform (return .nil)
    | code + 1 => .yieldingOnce code
  callback := fun _ _ _ => .perform (return .nil)

def Codebase.nestingJournal : Journal Nat Unit :=
  Codebase.nesting.journal (.yieldingOnce 2) {} .silent () 0 3

end ExecutionContext
