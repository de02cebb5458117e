import ExecutionContext.Proofs.Capture

/-! # Further invariants of recorded runs

What every run keeps faithfully it may keep together with more: a further ledger, and a
further situation in which code runs. What has to be shown of them is said once, for
each note that a run makes and for each sort of code that it begins; all that concerns
the opening and closing of layers comes from the faithful ledger.
-/

namespace ExecutionContext

variable {β σ ε α : Type}

/-! ## Two ledgers, and two situations -/

def Ledger.and (L M : Ledger β σ) : Ledger β σ where
  Holds journal cells := L.Holds journal cells ∧ M.Holds journal cells
  of_kept own h hk := ⟨L.of_kept own h.1 hk, M.of_kept own h.2 hk⟩

def Situation.and (P Q : Situation β σ) : Situation β σ where
  Holds c := P.Holds c ∧ Q.Holds c
  of_calm h hd hx := ⟨P.of_calm h.1 hd hx, Q.of_calm h.2 hd hx⟩

/-- The invariant of runs from the start, with a ledger and a situation besides. -/
abbrev lawfulWith (L : Ledger β σ) (P : Situation β σ) : Contract (Recorded β σ) :=
  .recording (Ledger.faithful.and L) (Situation.settled.and P)

section Contracts

variable {L : Ledger β σ} {P Q : Situation β σ} {c d : Context (Recorded β σ)}

/-- Where a run leads is another situation as well, if that was the situation at its start. -/
theorem Contract.Allows.resituate {r : EStateM.Result (Exit ε) (Context (Recorded β σ)) α}
    (h : (Contract.recording L P).Allows c r) (hq : Q.Holds c) :
    (Contract.recording L Q).Allows c r := by
  cases r with
  | ok a d => exact ⟨⟨h.1.1, h.1.2.1, Q.of_calm hq h.2.1 h.2.2⟩, h.2⟩
  | error exit d => exact ⟨⟨⟨h.1.1.1, h.1.1.2.1, Q.of_calm hq h.1.2.1 h.1.2.2⟩, h.1.2⟩, h.2⟩

theorem lawful_of_lawfulWith (hc : (lawfulWith L P).Holds c) : lawful.Holds c :=
  ⟨hc.1, hc.2.1.1, hc.2.2.1⟩

/-- A note that keeps the faithful ledger keeps the further one when the addition is allowed. -/
theorem Contract.Allows.noteWith {change : Context (Recorded β σ) -> Journal β σ}
    (h : lawful.Allows c ((Run.note change : Run ε (Recorded β σ) Unit) c))
    (hl : L.Holds (change c) c.frameCells) (hp : P.Holds (c.journaling (change c))) :
    (lawfulWith L P).Allows c ((Run.note change : Run ε (Recorded β σ) Unit) c) :=
  ⟨⟨h.1.1, ⟨h.1.2.1, hl⟩, h.1.2.2, hp⟩, h.2⟩

end Contracts

/-! ## What has to be shown -/

/-- The contexts in which the code of a new frame may begin; its mark comes from the one on top. -/
inductive Context.OpensFrame (c : Context (Recorded β σ)) : Context (Recorded β σ) -> Prop where
  | method (receiver : Value) (name : String) (mark : Attachment) (top : c.marks.top? = some mark) :
      c.OpensFrame (c.invoking receiver name mark)
  | moduleBody (module : Ref .module) (mark : Attachment) (top : c.marks.top? = some mark) :
      c.OpensFrame (c.openingModule module mark)

def Journal.addCall (c : Context (Recorded β σ)) (attached : Option Nat) : Journal β σ :=
  { c.host with calls := c.host.calls ++ [⟨c.frames.top?.getD default, attached, c.plain⟩] }

def Journal.addPass (c : Context (Recorded β σ)) (yielding : Yielding β σ) (number : Nat)
    (receiver : Option Value) : Journal β σ :=
  { c.host with passes := c.host.passes ++ [⟨yielding, number, receiver, c.plain⟩] }

/-- The ledger allows each note of a run, and the code of every frame, call and pass begins in the
situation. -/
structure Supplement (L : Ledger β σ) (P : Situation β σ) : Prop where
  point : ∀ {c : Context (Recorded β σ)} pending, (lawfulWith L P).Holds c ->
    L.Holds { c.host with points := c.host.points ++ [⟨c.plain, pending⟩] } c.frameCells
  birth : ∀ {c : Context (Recorded β σ)} params code receiver, (lawfulWith L P).Holds c ->
    L.Holds { c.host with
      births := c.host.births ++ [⟨c.capture params code receiver, c.plain⟩] } c.frameCells
  binding : ∀ {c : Context (Recorded β σ)} binding, (lawfulWith L P).Holds c ->
    L.Holds { c.host with bindings := c.host.bindings ++ [binding] } c.frameCells
  attaching : ∀ {c : Context (Recorded β σ)} block, (lawfulWith L P).Holds c ->
    P.Holds (c.attaching block)
  call : ∀ {c inside : Context (Recorded β σ)} attached, (lawfulWith L P).Holds c ->
    checkDepth c = .ok () c -> c.OpensFrame inside ->
    L.Holds (Journal.addCall inside attached) inside.frameCells ∧
      P.Holds (inside.journaling (Journal.addCall inside attached))
  -- The body begins with the block's mark on top; what bound the arguments was calm.
  pass : ∀ {c d : Context (Recorded β σ)} {block} receiver cls given,
    (lawfulWith L P).Holds c -> c.yieldTarget? = some block ->
    { c.entering block cls with marks := c.marks.push block.mark }.Calm d ->
    c.host.Extends d.host -> lawful.Holds d -> L.Holds d.host d.frameCells ->
    L.Holds (Journal.addPass d ⟨c.plain, receiver, cls⟩ block.code.number given) d.frameCells ∧
      P.Holds (d.journaling
        (Journal.addPass d ⟨c.plain, receiver, cls⟩ block.code.number given))

namespace Supplement

variable {L : Ledger β σ} {P : Situation β σ} {c : Context (Recorded β σ)}
  {eval : Evaluator (Recorded β σ)}

/-! ## Frames -/

/-- The code of a new frame, after its note, leads where it should from the context that the
opening leads to. -/
theorem noteCall_bind (h : Supplement L P) {inside : Context (Recorded β σ)}
    (hc : (lawfulWith L P).Holds c) (hd : checkDepth c = .ok () c) (ho : c.OpensFrame inside)
    (hin : lawful.Holds inside) (attached : Option Nat) {code : Run Signal (Recorded β σ) Value}
    (hcode : code.Keeps (lawfulWith L P)) :
    (Contract.recording (Ledger.faithful.and L) .settled).Allows inside
      ((Journal.noteCall attached >>= fun _ => code) inside) := by
  obtain ⟨hl, hp⟩ := h.call attached hc hd ho
  have hnoted := (noteCall_lawful (ε := Signal) attached inside hin).noteWith hl hp
  exact (hnoted.bind fun _ => hcode).resituate hin.2.2

theorem invoke_keeps (h : Supplement L P)
    (hb : ∀ pattern receiver value strict, (eval.bind pattern receiver value strict).Keeps .calm)
    (attached : Option Nat) (receiver : Value) (method : String)
    {code : Run Signal (Recorded β σ) Value} (hcode : code.Keeps (lawfulWith L P)) :
    (Program.invokeNoted attached receiver method code).Keeps (lawfulWith L P) := by
  intro c hc
  rcases checkDepth_cases c with hd | ⟨failure, hd⟩
  · refine Layer.around_recording_of_inside .settled hc hb (.invoke receiver method) rfl ?_ ?_
    · rintro inside ⟨mark, hm, rfl⟩
      have hin := invoking_lawful (lawful_of_lawfulWith hc) receiver method mark
      refine ⟨rfl, ?_⟩
      rw [Layer.rounds, catchingReturn_eq_settle _ Run.exhausted]
      exact (h.noteCall_bind hc hd (.method _ _ _ hm) hin attached hcode).settle .exhausted
    · rintro exit d ⟨rfl, _⟩
      rfl
  · rw [Program.invokeNoted, invoke, Run.bind_of_error (signalling_checkDepth_of_error hd)]
    exact Contract.allows_raised hc _

theorem openModule_keeps (h : Supplement L P)
    (hb : ∀ pattern receiver value strict, (eval.bind pattern receiver value strict).Keeps .calm)
    (module : Ref .module) {code : Run Signal (Recorded β σ) Value}
    (hcode : code.Keeps (lawfulWith L P)) :
    (Program.openNoted module code).Keeps (lawfulWith L P) := by
  intro c hc
  rcases checkDepth_cases c with hd | ⟨failure, hd⟩
  · refine Layer.around_recording_of_inside .settled hc hb (.openModule module) rfl ?_ ?_
    · rintro inside ⟨mark, hm, rfl⟩
      have hin := openingModule_lawful (lawful_of_lawfulWith hc) module mark
      exact ⟨rfl, h.noteCall_bind hc hd (.moduleBody _ _ hm) hin (c.host.attached? c) hcode⟩
    · rintro exit d ⟨rfl, _⟩
      rfl
  · rw [Program.openNoted, Run.bind_of_ok (Run.get_apply c), openModule,
      Run.bind_of_error (signalling_checkDepth_of_error hd)]
    exact Contract.allows_raised hc _

/-! ## Blocks -/

theorem recordingBirth_keeps (h : Supplement L P) (hc : (lawfulWith L P).Holds c)
    (params : Params) (code : Code (Numbered β)) (receiver : Value)
    (hn : code.number = c.host.births.length) :
    (lawfulWith L P).Holds (Program.recordingBirth c (c.capture params code receiver)) ∧
      (lawfulWith L P).Links c (Program.recordingBirth c (c.capture params code receiver)) := by
  obtain ⟨⟨hbased, hfaithful, hsettled⟩, hlinks⟩ :=
    recordingBirth_lawful (lawful_of_lawfulWith hc) params code receiver hn
  have hl := h.birth params code receiver hc
  exact ⟨⟨hbased, ⟨hfaithful, hl⟩, hsettled, P.of_calm hc.2.2.2 hlinks.1 hlinks.2⟩, hlinks⟩

theorem captureBlock_keeps (h : Supplement L P) (params : Params) (receiver : Option Value)
    (body : β) : (Program.captureBlock params receiver body).Keeps (lawfulWith L P) := by
  intro c hc
  rw [Program.captureBlock_eq hc.1]
  obtain ⟨hborn, hl⟩ := h.recordingBirth_keeps hc params (.body ⟨c.host.births.length, body⟩) _ rfl
  obtain ⟨hcaptured, hl'⟩ := Contract.holds_capturing hborn
  exact ⟨hcaptured, (lawfulWith L P).trans hl hl'⟩

theorem attaching_holds (h : Supplement L P) (hc : (lawfulWith L P).Holds c) {number : Nat}
    {birth : Birth β σ} (hb : c.host.births[number]? = some birth) :
    (lawfulWith L P).Holds (c.attaching birth.block) := by
  have hlawful := attaching_lawful (lawful_of_lawfulWith hc) hb
  exact ⟨hlawful.1, hc.2.1, hlawful.2.2, h.attaching birth.block hc⟩

/-! ## Yields -/

/-- The body of a pass begins in the situation, once the pass is recorded. -/
theorem runCode_keeps (h : Supplement L P) (he : eval.Keeps (lawfulWith L P))
    (hc : (lawfulWith L P).Holds c) {birth : Birth β σ} (ht : c.yieldTarget? = some birth.block)
    (receiver : Option Value) (cls : Option (Ref .module))
    {inside : Context (Recorded β σ)}
    (hentered : { c.entering birth.block cls with
      marks := c.marks.push birth.block.mark }.Calm inside)
    (hx : c.host.Extends inside.host) (hw : inside.Within birth ⟨c.plain, receiver, cls⟩)
    (ha : inside.Anchored) (hb : inside.host.births[birth.block.code.number]? = some birth)
    (args : List Value) :
    (runCode (eval.watching ⟨c.plain, receiver, cls⟩) birth.block.code
      (birth.block.receiverFor receiver cls) args).Keeps
      ((Contract.recording (Ledger.faithful.and L) .settled).startingAt inside) := by
  have hpass : ∀ {body : Run Signal (Recorded β σ) Value}, body.Keeps (lawfulWith L P) ->
      (Journal.notePass ⟨c.plain, receiver, cls⟩ birth.block.code.number
        (birth.receiver? ⟨c.plain, receiver, cls⟩) >>= fun _ => body).Keeps
        ((Contract.recording (Ledger.faithful.and L) .settled).startingAt inside) := by
    intro body hbody d hd
    have hlawful : lawful.Holds d := ⟨hd.1.1, hd.1.2.1.1, hd.1.2.2⟩
    have hnoted := (notePass_lawful hw ha hb d ⟨hlawful, hd.2⟩).of_startingAt
    obtain ⟨hl, hp⟩ := h.pass receiver cls (birth.receiver? ⟨c.plain, receiver, cls⟩) hc ht
      (hentered.trans hd.2.1) (hx.trans hd.2.2) hlawful hd.1.2.1.2
    have hrun := (hnoted.noteWith hl hp).bind fun _ => hbody
    exact (hrun.resituate hlawful.2.2).startingAt hd
  unfold Birth.receiver? at hpass
  unfold runCode
  cases hcode : birth.block.code with
  | body code =>
      rw [hcode] at hpass
      exact hpass (he.body code _ args)
  | callback code data =>
      rw [hcode] at hpass
      exact ((packArgs_recording args).startingAt inside).bind fun packed =>
        hpass (he.callback code packed data)

theorem yieldBlock_keeps (h : Supplement L P) (he : eval.Keeps (lawfulWith L P))
    (hb : ∀ pattern receiver value strict, (eval.bind pattern receiver value strict).Keeps .calm)
    (hbind : ∀ pattern receiver value strict, (eval.bind pattern receiver value strict).Keeps
      (.recording (Ledger.faithful.and L) .settled))
    (hc : (lawfulWith L P).Holds c) (value receiver : Option Value) (cls : Option (Ref .module))
    (strict : Bool) : (lawfulWith L P).Allows c
      (yieldBlock (eval.watching ⟨c.plain, receiver, cls⟩) value receiver cls strict c) := by
  have hlawful := lawful_of_lawfulWith hc
  refine yieldBlock_recording .settled .settled hc (Evaluator.watching_bind_calm hb _) value
    receiver cls strict (fun block ht => ?_) fun block args bound ht hbound hlinks => ?_
  · obtain ⟨birth, hbirth, rfl⟩ := hlawful.2.2.exists_birth hc.1 ht
    have hentering := entering_lawful hlawful hbirth cls
    have hinside : (Contract.recording (Ledger.faithful.and L) .settled).Holds
        (c.entering birth.block cls) :=
      ⟨hentering.1, ⟨hentering.2.1, hc.2.1.2⟩, hentering.2.2⟩
    refine prepareArgs_recording hinside hbind _ _ _ _ _ fun heap => ?_
    exact ⟨noteBinding_faithful hlawful hbirth ht receiver cls heap, h.binding (c := c) _ hc⟩
  · obtain ⟨birth, hbirth, rfl⟩ := hlawful.2.2.exists_birth hc.1 ht
    have hcalm : { c.entering birth.block cls with
        marks := c.marks.push birth.block.mark }.Calm
        { bound with marks := bound.marks.push birth.block.mark } :=
      { hlinks.1 with marks := congrArg (fun marks => marks.push birth.block.mark) hlinks.1.marks }
    have hwithin : Context.Within
        { bound with marks := bound.marks.push birth.block.mark } birth
        ⟨c.plain, receiver, cls⟩ := by
      obtain ⟨cell, hcell, hlink⟩ := exists_link_entering hlawful hbirth cls
      exact { (inBlock_entering hlawful hbirth receiver cls).of_calm
        (entering_lawful hlawful hbirth cls).2.2.anchored hlinks.1 with
        mark := (hlawful.2.1.births hbirth).mark.symm
        chain := ⟨cell, hcell, hlink ▸ hlinks.1.chain⟩ }
    exact ⟨⟨hbound.2.2.anchored, hbound.2.2.blocks⟩, h.runCode_keeps he hc ht receiver cls hcalm
      hlinks.2 hwithin hbound.2.2.anchored (hlinks.2.birth hbirth) args⟩

/-! ## Whole programs -/

theorem sustains (h : Supplement L P) (he : eval.Keeps (lawfulWith L P))
    (hb : ∀ pattern receiver value strict, (eval.bind pattern receiver value strict).Keeps .calm)
    (hbind : ∀ pattern receiver value strict, (eval.bind pattern receiver value strict).Keeps
      (.recording (Ledger.faithful.and L) .settled)) :
    Program.Sustains (lawfulWith L P) eval Quiet where
  point pending := by
    intro c hc
    have hnoted := notePoint_lawful (ε := Signal) pending c (lawful_of_lawfulWith hc)
    exact hnoted.noteWith (h.point pending hc) (P.of_calm hc.2.2.2 hnoted.2.1 hnoted.2.2)
  leaf hop := hop.recorded
  capture := h.captureBlock_keeps
  call number code hcode := by
    intro c hc
    unfold Program.callNumbered
    rw [Run.bind_of_ok (Run.get_apply c)]
    cases hbirth : c.host.births[number]? with
    | none => exact (lawfulWith L P).allows_ok hc _
    | some birth =>
        refine Layer.around_recording_of_inside (Situation.settled.and P) hc hb
          (.withBlock birth.block) rfl ?_ ?_
        · rintro inside rfl
          exact ⟨rfl, Layer.rounds_keeps hcode _ _ _ (h.attaching_holds hc hbirth)⟩
        · rintro exit d ⟨⟩
  iteration {driver} callback data hdriver := by
    intro c hc
    unfold Program.iterateNumbered
    rw [Run.bind_of_ok (Program.noteCallback_eq c callback data)]
    obtain ⟨hborn, hlinks⟩ := h.recordingBirth_keeps hc .undeclared
      (.callback ⟨c.host.births.length, callback⟩ data) c.topSelf rfl
    refine Contract.Allows.of_links (Layer.around_recording_of_inside (Situation.settled.and P)
      hborn hb (.iterate ⟨c.host.births.length, callback⟩ data) rfl ?_ ?_) hlinks
    · rintro inside rfl
      exact ⟨rfl, Layer.rounds_keeps (hdriver _) _ _ _ (h.attaching_holds
        (Contract.holds_capturing hborn).1 List.getElem?_concat_length)⟩
    · rintro exit d ⟨⟩
  yield value receiver cls strict := fun c hc =>
    h.yieldBlock_keeps he hb hbind hc value receiver cls strict
  method attached receiver name code hcode := h.invoke_keeps hb attached receiver name hcode
  moduleBody module code hcode := h.openModule_keeps hb module hcode

theorem starting_allows (config : Config) (errors : ErrorStream) (own : σ) (processId : Int64)
    (hl : L.Holds (Journal.addCall (Codebase.starting config errors own processId) none)
      (Codebase.starting config errors own processId : Context (Recorded β σ)).frameCells)
    (hp : P.Holds ((Codebase.starting config errors own processId).journaling
      (Journal.addCall (Codebase.starting config errors own processId) none))) :
    (lawfulWith L P).Allows (Codebase.starting config errors own processId)
      ((Journal.noteCall none : Run Signal (Recorded β σ) Unit)
        (Codebase.starting config errors own processId)) :=
  (noteCall_lawful none _ (starting_lawful config errors own processId)).noteWith hl hp

/-- What a whole run leaves is faithful, and right by the further ledger. -/
theorem journal_holds (h : Supplement L P) {codebase : Codebase β σ} {program : Program β σ}
    (hcode : codebase.All Quiet) (hp : program.All Quiet) (config : Config)
    (errors : ErrorStream) (own : σ) (processId : Int64) (depth : Nat)
    (hstart : (lawfulWith L P).Allows (Codebase.starting config errors own processId)
      ((Journal.noteCall none : Run Signal (Recorded β σ) Unit)
        (Codebase.starting config errors own processId))) :
    ∃ cells, (codebase.journal program config errors own processId depth).Faithful cells ∧
      L.Holds (codebase.journal program config errors own processId depth) cells := by
  have hbind : ∀ {Q : Situation β σ} depth pattern receiver value strict,
      ((codebase.evaluator .default depth).bind pattern receiver value strict).Keeps
        (.recording (Ledger.faithful.and L) Q) := by
    intro Q depth pattern receiver value strict
    rw [Codebase.evaluator_bind]
    exact Binder.default_recording pattern receiver value strict
  have hsustains : ∀ depth, (codebase.evaluator .default depth).Keeps (lawfulWith L P) ->
      Program.Sustains (lawfulWith L P) (codebase.evaluator .default depth) Quiet :=
    fun depth he => h.sustains he (codebase.default_bind_calm depth) (hbind depth)
  have he := Codebase.evaluator_keeps hcode Binder.default_recording hsustains depth
  have hrun := hstart.bind fun _ => (hsustains depth he).run_keeps program hp none
  exact ⟨_, hrun.after.1.2.1⟩

end Supplement

end ExecutionContext
