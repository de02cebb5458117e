import ExecutionContext.Proofs.Home

/-! # A yield finds the block of the running call

Entering a block goes back to the frame in which it was written and takes the block
off the stack, so that frames and blocks stay in step through every operation. In a
program that takes its blocks literally a yield therefore activates the block attached
to the call around it, at any depth.
-/

namespace ExecutionContext

variable {β σ : Type}

/-! ## The operations -/

abbrev homely : Contract (Recorded β σ) :=
  .recording .homely .home

section Operations

variable {eval : Evaluator (Recorded β σ)} {code : Run Signal (Recorded β σ) Value}

/-- A method call keeps the ledger when the context says which block is attached to it. -/
theorem invokeNoted_homely {P : Situation β σ} {attached : Option Nat}
    (hb : ∀ pattern receiver value strict, (eval.bind pattern receiver value strict).Keeps .calm)
    (hp : ∀ c, (Contract.recording .homely P).Holds c -> c.Offers attached)
    (hcode : code.Keeps homely) (receiver : Value) (method : String) :
    (Program.invokeNoted attached receiver method code).Keeps (.recording .homely P) := by
  intro c hc
  refine Layer.around_recording_of_inside .home hc hb (.invoke receiver method) rfl ?_ ?_
  · rintro inside ⟨mark, hm, rfl⟩
    have hnoted := (((hp c hc).opened hm receiver method).noteCall_homely hc.2.1
      (hc.1.invoking receiver method mark)).bind fun _ => hcode
    refine ⟨rfl, ?_⟩
    simp only [Layer.rounds]
    rw [catchingReturn_eq_settle _ Run.exhausted]
    exact hnoted.settle Run.Keeps.exhausted
  · rintro exit d ⟨rfl, _⟩
    rfl

theorem openNoted_homely
    (hb : ∀ pattern receiver value strict, (eval.bind pattern receiver value strict).Keeps .calm)
    (hcode : code.Keeps homely) (module : Ref .module) :
    (Program.openNoted module code).Keeps homely := by
  intro c hc
  refine Layer.around_recording_of_inside .home hc hb (.openModule module) rfl ?_ ?_
  · rintro inside ⟨mark, hm, rfl⟩
    obtain ⟨frame, call, h⟩ := hc.2.2
    exact ⟨rfl, ((h.opened hc.2.1 hm module).noteCall_homely hc.2.1
      (hc.1.openingModule module mark)).bind fun _ => hcode⟩
  · rintro exit d ⟨rfl, _⟩
    rfl

/-- The block that a yield activates is the one attached to the call, and lies on the stack of the
frame in which it was written. -/
theorem Context.Home.target {c : Context (Recorded β σ)} {frame : Ref .frame} {call : Call β σ}
    (hl : c.host.Homely c.frameCells) (h : c.Home frame call) {block : Block (Numbered β)}
    (ht : c.yieldTarget? = some block) : ∃ home,
      c.host.attached? c = some block.code.number ∧ c.host.call? block.frame = some home ∧
      c.frameCells.Has block.frame ∧ c.blocks = home.scene.blocks.push block ∧
      block.mark = (c.frameCells.read block.frame).mark := by
  have haims := h.aims hl
  unfold Aims at haims
  cases ha : call.attached with
  | none =>
      rw [ha] at haims
      exact absurd (ht.symm.trans haims) (by simp)
  | some number =>
      rw [ha] at haims
      obtain ⟨birth, hbirth, hn, htarget⟩ := haims
      obtain ⟨birth', home, hbirth', _, hhome, hs, hm⟩ := (hl.calls h.place.known).2.block ha
      obtain rfl : birth = birth' := Option.some.inj (hbirth.symm.trans hbirth')
      obtain rfl : block = birth.block := Option.some.inj (ht.symm.trans htarget)
      obtain ⟨hframe, hsound⟩ := hl.calls hhome
      exact ⟨home, by rw [h.attached, ha, hn], hhome, hframe ▸ hsound.has,
        h.place.blocks.trans hs, hm⟩

/-- A pass is recorded under the number of the block attached to the call around its yield. -/
theorem notePass_homely {P : Situation β σ} {inside : Context (Recorded β σ)}
    {yielding : Yielding β σ} {number : Nat}
    (ha : inside.host.attached? yielding.site = some number) (receiver : Option Value) :
    (Journal.notePass yielding number receiver : Run Signal (Recorded β σ) Unit).Keeps
      ((Contract.recording .homely P).startingAt inside) := by
  intro d hd
  have hx : d.host.Extends { d.host with
      passes := d.host.passes ++ [⟨yielding, number, receiver, d.plain⟩] } :=
    Journal.extends_pass _ _
  refine Contract.Allows.startingAt hd
    (Contract.Allows.note hd.1 hx (hd.1.2.1.extend hx Or.inl Or.inl ?_))
  intro pass hm
  rcases List.mem_append.mp hm with hold | hnew
  · exact Or.inl hold
  · rw [List.mem_singleton.mp hnew]
    exact Or.inr (hx.attached (hd.2.2.attached ha))

theorem runCode_homely (he : eval.Keeps homely) {inside : Context (Recorded β σ)}
    {yielding : Yielding β σ} {block : Block (Numbered β)}
    (ha : inside.host.attached? yielding.site = some block.code.number) (receiver : Value)
    (args : List Value) :
    (runCode (eval.watching yielding) block.code receiver args).Keeps
      (homely.startingAt inside) := by
  unfold runCode
  cases hcode : block.code with
  | body code =>
      rw [hcode] at ha
      exact (notePass_homely ha _).bind fun _ => (he.body code receiver args).startingAt inside
  | callback code data =>
      rw [hcode] at ha
      exact ((packArgs_recording args).startingAt inside).bind fun packed =>
        (notePass_homely ha _).bind fun _ => (he.callback code packed data).startingAt inside

theorem yieldBlock_homely {c : Context (Recorded β σ)} (he : eval.Keeps homely)
    (hb : ∀ pattern receiver value strict, (eval.bind pattern receiver value strict).Keeps .calm)
    (hbind : ∀ pattern receiver value strict,
      (eval.bind pattern receiver value strict).Keeps (.recording .homely .anywhere))
    (hc : homely.Holds c) (value receiver : Option Value) (cls : Option (Ref .module))
    (strict : Bool) : homely.Allows c
      (yieldBlock (eval.watching ⟨c.plain, receiver, cls⟩) value receiver cls strict c) := by
  obtain ⟨frame, call, h⟩ := hc.2.2
  refine yieldBlock_recording .anywhere .home hc (Evaluator.watching_bind_calm hb _) value
    receiver cls strict (fun block ht => ?_) fun block args bound ht hbound hlinks => ?_
  · refine prepareArgs_recording ⟨hc.1.entering block cls, hc.2.1, trivial⟩ hbind _ _ _ _ _ ?_
    intro heap
    exact hc.2.1.extend (Journal.extends_binding _ _)
      Or.inl Or.inl Or.inl
  · -- Entering the block goes back to the frame in which it was written, and takes it off the stack
    -- of the running call; what is left is the stack of that frame's call.
    obtain ⟨home, ha, hhome, hhas, hblocks, hmark⟩ := h.target hc.2.1 ht
    obtain ⟨hhas', hmark', _⟩ := hlinks.1.frameCells _ hhas
    have hsite : bound.host.attached? c.plain = some block.code.number := hlinks.2.attached ha
    refine ⟨⟨block.frame, home, ⟨?_, hlinks.2.call hhome, ?_, ?_⟩, hhas'⟩,
      runCode_homely he hsite _ args⟩
    · exact congrArg Stack.top? hlinks.1.frames
    · refine hlinks.1.blocks.trans ?_
      simp only [Context.entering, hblocks]
      rfl
    · exact congrArg some (hmark.trans hmark'.symm)

/-! ## Literal blocks -/

theorem recordingBirth_homely {c : Context (Recorded β σ)} (hc : homely.Holds c) (params : Params)
    (code : Code (Numbered β)) (receiver : Value) (hn : code.number = c.host.births.length) :
    (Contract.recording .homely (.writing c.host.births.length)).Holds
        (Program.recordingBirth c (c.capture params code receiver)) ∧
      homely.Links c (Program.recordingBirth c (c.capture params code receiver)) := by
  have hx : c.host.Extends { c.host with
      births := c.host.births ++ [⟨c.capture params code receiver, c.plain⟩] } :=
    Journal.extends_birth _ _
  have hallows : homely.Allows c ((Journal.noteBirth (c.capture params code receiver) c.plain :
      Run Signal (Recorded β σ) Unit) c) :=
    Contract.Allows.note hc hx (hc.2.1.extend hx Or.inl Or.inl Or.inl)
  obtain ⟨⟨hbased, hl, frame, call, h⟩, hlinks⟩ := hallows
  have htop : c.frames.top? = some frame := h.place.top
  have hmark : c.marks.top? = some (c.frameCells.read frame).mark := h.place.mark
  refine ⟨⟨hbased, hl, frame, call, _, h, List.getElem?_concat_length, hn, ?_, ?_⟩, hlinks⟩
  · simp [Context.capture, htop]
  · simp [Context.capture, hmark, Program.recordingBirth, Context.journaling]

theorem attaching_homely {c : Context (Recorded β σ)} {number : Nat} {birth : Birth β σ}
    (hc : (Contract.recording .homely (.writing number)).Holds c)
    (hbirth : c.host.births[number]? = some birth) :
    (Contract.recording .homely (.waiting number)).Holds (c.attaching birth.block) := by
  obtain ⟨hbased, hl, frame, call, birth', h, hw⟩ := hc
  obtain rfl : birth = birth' := Option.some.inj (hbirth.symm.trans hw.known)
  refine ⟨hbased.attaching _, hl, frame, call, birth,
    ⟨hw.known, hw.numbered, hw.captured, hw.mark⟩, h.has, h.place.known, ?_, rfl⟩
  exact congrArg (fun blocks => blocks.push birth.block) h.place.blocks

theorem callNumbered_homely {number : Nat}
    (hb : ∀ pattern receiver value strict, (eval.bind pattern receiver value strict).Keeps .calm)
    (hcode : code.Keeps (.recording .homely (.waiting number))) :
    (Program.callNumbered eval number code).Keeps (.recording .homely (.writing number)) := by
  intro c hc
  unfold Program.callNumbered
  rw [Run.bind_of_ok (Run.get_apply c)]
  cases hbirth : c.host.births[number]? with
  | none => exact Contract.allows_ok hc _
  | some birth =>
      refine Layer.around_recording_of_inside (.waiting number) hc hb (.withBlock birth.block) rfl
        ?_ ?_
      · rintro inside rfl
        exact ⟨rfl, Layer.rounds_keeps hcode _ _ _ (attaching_homely hc hbirth)⟩
      · rintro exit d ⟨⟩

/-- What was written in the code of a recorded call was written there. -/
theorem home_of_writing {number : Nat} {c : Context (Recorded β σ)}
    (h : (Situation.writing number).Holds c) : Situation.home.Holds c := by
  obtain ⟨frame, call, _, hh, _⟩ := h
  exact ⟨frame, call, hh⟩

theorem homely_of_writing {α ε : Type} {number : Nat} {c : Context (Recorded β σ)}
    {r : EStateM.Result (Exit ε) (Context (Recorded β σ)) α}
    (h : (Contract.recording .homely (.writing number)).Allows c r) : homely.Allows c r := by
  cases r with
  | ok a d => exact ⟨⟨h.1.1, h.1.2.1, home_of_writing h.1.2.2⟩, h.2⟩
  | error exit d => exact ⟨⟨⟨h.1.1.1, h.1.1.2.1, home_of_writing h.1.1.2.2⟩, h.1.2⟩, h.2⟩

theorem literal_homely (params : Params) (receiver : Option Value) (body : β)
    {next : Nat -> Run Signal (Recorded β σ) Value}
    (hnext : ∀ number, (next number).Keeps (.recording .homely (.writing number))) :
    (Program.captureBlock params receiver body >>= next).Keeps homely := by
  intro c hc
  rw [Run.bind_of_ok (Program.captureBlock_eq hc.1 params receiver body)]
  obtain ⟨hborn, hl⟩ := recordingBirth_homely hc params (.body ⟨c.host.births.length, body⟩)
    (receiver.getD ((c.frames.top?.map fun frame => (c.frameCells.read frame).self).getD .nil)) rfl
  obtain ⟨hcaptured, hl'⟩ := Contract.holds_capturing hborn
  exact (homely_of_writing (hnext _ _ hcaptured)).of_links (homely.trans hl hl')

theorem iterateNumbered_homely
    (hb : ∀ pattern receiver value strict, (eval.bind pattern receiver value strict).Keeps .calm)
    {driver : Nat -> Run Signal (Recorded β σ) Value}
    (hdriver : ∀ number, (driver number).Keeps (.recording .homely (.waiting number)))
    (callback : β) (data : Value) :
    (Program.iterateNumbered eval driver callback data).Keeps homely := by
  intro c hc
  unfold Program.iterateNumbered
  rw [Run.bind_of_ok (Program.noteCallback_eq c callback data)]
  obtain ⟨hborn, hlinks⟩ := recordingBirth_homely hc .undeclared
    (.callback ⟨c.host.births.length, callback⟩ data) c.topSelf rfl
  refine (homely_of_writing (Layer.around_recording_of_inside (.waiting c.host.births.length)
    hborn hb (.iterate ⟨c.host.births.length, callback⟩ data) rfl ?_ ?_)).of_links hlinks
  · rintro inside rfl
    exact ⟨rfl, Layer.rounds_keeps (hdriver _) _ _ _
      (attaching_homely (Contract.holds_capturing hborn).1 List.getElem?_concat_length)⟩
  · rintro exit d ⟨⟩

end Operations

/-! ## Programs with literal blocks -/

/-- Programs in which a block is only written at the call that takes it, and the code of such a
call, like the driver of an iteration, makes one method call. -/
inductive Program.Lexical : Program β σ -> Prop
  | perform {op : Run Signal (Plain β σ) Value} : Quiet op -> Lexical (.perform op)
  | andThen {first : Program β σ} {next : Value -> Program β σ} :
      Lexical first -> (∀ value, Lexical (next value)) -> Lexical (.andThen first next)
  | reading {next : Context (Plain β σ) -> Program β σ} :
      (∀ c, Lexical (next c)) -> Lexical (.reading next)
  | rescue {body : Program β σ} {handler : Exit Signal -> Program β σ} :
      Lexical body -> (∀ exit, Lexical (handler exit)) -> Lexical (.rescue body handler)
  | call {receiver : Value} {method : String} {body : Program β σ} :
      Lexical body -> Lexical (.invoke receiver method body)
  | callWithLiteral {params : Params} {self : Option Value} {block : β} {receiver : Value}
      {method : String} {body : Program β σ} :
      Lexical body -> Lexical (.capture params self block fun number =>
        .withBlock number (.invoke receiver method body))
  | iterate {receiver : Value} {method : String} {body : Program β σ} {callback : β}
      {data : Value} :
      Lexical body -> Lexical (.iterate (.invoke receiver method body) callback data)
  | yield {value receiver : Option Value} {cls : Option (Ref .module)} {strict : Bool} :
      Lexical (.yield value receiver cls strict)
  | openModule {module : Ref .module} {body : Program β σ} :
      Lexical body -> Lexical (.openModule module body)
  | catchTag {tag : Value} {body : Program β σ} :
      Lexical body -> Lexical (.catchTag tag body)

def Codebase.Lexical (code : Codebase β σ) : Prop :=
  (∀ body receiver args, (code.body body receiver args).Lexical) ∧
  ∀ body args data, (code.callback body args data).Lexical

theorem waitingCall_homely {eval : Evaluator (Recorded β σ)}
    (hb : ∀ pattern receiver value strict, (eval.bind pattern receiver value strict).Keeps .calm)
    {body : Program β σ} (hbody : (body.run eval none).Keeps homely) (receiver : Value)
    (method : String) (number : Nat) :
    ((Program.invoke receiver method body).run eval (some number)).Keeps
      (.recording .homely (.waiting number)) := by
  refine (notePoint_homely (some number) nofun).bind fun _ =>
    invokeNoted_homely hb (fun c hc => ?_) hbody receiver method
  obtain ⟨frame, call, birth, h⟩ := hc.2.2
  exact h.offers

theorem Program.Lexical.run_homely {eval : Evaluator (Recorded β σ)} (he : eval.Keeps homely)
    (hb : ∀ pattern receiver value strict, (eval.bind pattern receiver value strict).Keeps .calm)
    (hbind : ∀ pattern receiver value strict,
      (eval.bind pattern receiver value strict).Keeps (.recording .homely .anywhere))
    {program : Program β σ} (hp : program.Lexical) : (program.run eval none).Keeps homely := by
  have hpoint : (Journal.notePoint none : Run Signal (Recorded β σ) Unit).Keeps homely :=
    notePoint_homely none fun _ _ h => h
  induction hp with
  | perform h => exact hpoint.bind fun _ => h.recorded
  | andThen _ _ ihf ihn => exact ihf.bind ihn
  | reading _ ih => exact Run.Keeps.get.bind fun c => ih c.plain
  | rescue _ _ ihb ihh => exact ihb.recover ihh
  | call _ ih =>
      refine hpoint.bind fun _ => invokeNoted_homely hb (fun c hc => ?_) ih _ _
      obtain ⟨frame, call, h⟩ := hc.2.2
      exact h.offers hc.2.1
  | callWithLiteral _ ih =>
      refine hpoint.bind fun _ => literal_homely _ _ _ fun number => ?_
      refine (notePoint_homely none fun _ _ h => home_of_writing h).bind fun _ => ?_
      exact callNumbered_homely hb (waitingCall_homely hb ih _ _ number)
  | iterate _ ih =>
      exact hpoint.bind fun _ => iterateNumbered_homely hb
        (fun number => waitingCall_homely hb ih _ _ number) _ _
  | yield => exact hpoint.bind fun _ => fun c hc => yieldBlock_homely he hb hbind hc _ _ _ _
  | openModule _ ih => exact hpoint.bind fun _ => openNoted_homely hb ih _
  | catchTag _ ih => exact hpoint.bind fun _ => ih.catchTag _

/-! ## Whole programs -/

theorem Codebase.Lexical.evaluator_homely {code : Codebase β σ} (hcode : code.Lexical)
    (depth : Nat) : (code.evaluator .default depth).Keeps homely := by
  have hbind : ∀ depth pattern receiver value strict {P : Situation β σ},
      ((code.evaluator .default depth).bind pattern receiver value strict).Keeps
        (.recording .homely P) := by
    intro depth pattern receiver value strict P
    rw [Codebase.evaluator_bind]
    exact Binder.default_recording pattern receiver value strict
  induction depth with
  | zero =>
      exact ⟨fun _ _ _ => Run.Keeps.exhausted, fun _ _ _ => Run.Keeps.exhausted,
        fun _ _ _ _ => hbind 0 _ _ _ _⟩
  | succ depth ih =>
      have hrun : ∀ {program : Program β σ}, program.Lexical ->
          (program.run (code.evaluator .default depth) none).Keeps homely := fun hp =>
        hp.run_homely ih (code.default_bind_calm depth) fun _ _ _ _ => hbind depth _ _ _ _
      exact ⟨fun _ _ _ => hrun (hcode.1 _ _ _), fun _ _ _ => hrun (hcode.2 _ _ _),
        fun _ _ _ _ => hbind (depth + 1) _ _ _ _⟩

theorem starting_homely (config : Config) (errors : ErrorStream) (own : σ) (processId : Int64) :
    homely.Allows (Codebase.starting config errors own processId : Context (Recorded β σ))
      ((Journal.noteCall none : Run Signal (Recorded β σ) Unit)
        (Codebase.starting config errors own processId)) := by
  have hopened : Context.Opened
      { (Codebase.starting config errors own processId : Context (Recorded β σ)) with
        frameCells := {} }
      (Codebase.starting config errors own processId) ⟨0⟩ none := by
    refine ⟨rfl, fun frame h => ?_, ?_, Nat.zero_lt_one, rfl, rfl, rfl, fun ha => by cases ha⟩
    · exact absurd h (Nat.not_lt_zero _)
    · exact Nat.not_lt_zero _
  refine hopened.noteCall_homely ⟨?_, ?_, ?_⟩ (Context.based_start rfl rfl processId)
  · intro frame call h
    cases h
  · intro point h
    cases h
  · intro pass h
    cases h

/-- Wherever the code of a method, a block or a module runs, a yield enters the block attached to
the call that created the current frame, or fails if there is none. -/
theorem yield_finds_block {codebase : Codebase β σ} {program : Program β σ}
    (hcode : codebase.Lexical) (hp : program.Lexical) (config : Config) (errors : ErrorStream)
    (own : σ) (processId : Int64) (depth : Nat) :
    let journal := codebase.journal program config errors own processId depth
    -- The blocks are those of the frame, and the mark of the frame is on top.
    (∀ point ∈ journal.points, ∀ other ∈ journal.points, point.pending = none ->
      other.pending = none -> point.scene.frames.top? = other.scene.frames.top? ->
      point.scene.blocks = other.scene.blocks) ∧
    (∀ point ∈ journal.points, point.pending = none -> ∃ frame call,
      point.scene.frames.top? = some frame ∧ journal.call? frame = some call ∧
      point.scene.marks.top? = some (point.scene.frameCells.read frame).mark ∧
      match call.attached with
      | some number => ∃ birth, journal.births[number]? = some birth ∧
          ∀ eval value receiver cls strict,
            yieldBlock eval value receiver cls strict point.scene =
              runEntered eval birth.block point.scene.suspend
                (birth.block.receiverFor receiver cls) value strict
                (point.scene.entering birth.block cls)
      | none => ∀ eval value receiver cls strict,
          yieldBlock eval value receiver cls strict point.scene = .error (.raised
            (.failure (point.scene.attach { cause := .noBlockGiven }))) point.scene) ∧
    -- Every pass runs the block attached to the call around its yield.
    ∀ pass ∈ journal.passes, ∃ frame call, pass.yielding.site.frames.top? = some frame ∧
      journal.call? frame = some call ∧ call.attached = some pass.number := by
  have hrun := (starting_homely config errors own processId).bind fun _ =>
    hp.run_homely (hcode.evaluator_homely depth) (codebase.default_bind_calm depth)
      fun _ _ _ _ => by
        rw [Codebase.evaluator_bind]
        exact Binder.default_recording _ _ _ _
  have hend : (codebase.journal program config errors own processId depth).Homely _ :=
    hrun.after.1.2.1
  refine ⟨fun point hm other ho hn hn' htop => ?_, fun point hm hn => ?_, fun pass hm => ?_⟩
  · obtain ⟨_, frame, call, hat, _⟩ := hend.points hm hn
    obtain ⟨_, frame', call', hat', _⟩ := hend.points ho hn'
    obtain rfl : frame = frame' :=
      Option.some.inj (hat.top.symm.trans (htop.trans hat'.top))
    obtain rfl : call = call' := Option.some.inj (hat.known.symm.trans hat'.known)
    exact hat.blocks.trans hat'.blocks.symm
  · obtain ⟨hbased, frame, call, hat, haims⟩ := hend.points hm hn
    refine ⟨frame, call, hat.top, hat.known, hat.mark, ?_⟩
    unfold Context.Aims at haims
    cases ha : call.attached with
    | none =>
        rw [ha] at haims
        exact fun eval value receiver cls strict =>
          yieldBlock_of_none haims eval value receiver cls strict
    | some number =>
        rw [ha] at haims
        obtain ⟨birth, hb, _, ht⟩ := haims
        exact ⟨birth, hb, fun eval value receiver cls strict =>
          yieldBlock_of_target hbased ht eval value receiver cls strict⟩
  · have ha := hend.passes hm
    unfold Journal.attached? at ha
    cases hf : pass.yielding.site.frames.top? with
    | none => simp [hf] at ha
    | some frame =>
        cases hc : (codebase.journal program config errors own processId depth).call? frame with
        | none => simp [hf, hc] at ha
        | some call => exact ⟨frame, call, rfl, hc, by simpa [hf, hc] using ha⟩

theorem yield_finds_block_nesting :
    Codebase.nestingJournal.passes.length = 3 ∧
    (∀ point ∈ Codebase.nestingJournal.points, ∀ other ∈ Codebase.nestingJournal.points,
      point.pending = none -> other.pending = none ->
      point.scene.frames.top? = other.scene.frames.top? ->
      point.scene.blocks = other.scene.blocks) ∧
    ∀ pass ∈ Codebase.nestingJournal.passes, ∃ frame call,
      pass.yielding.site.frames.top? = some frame ∧
        Codebase.nestingJournal.call? frame = some call ∧ call.attached = some pass.number := by
  have hp : ∀ code, (Program.yieldingOnce code).Lexical := fun code => .callWithLiteral .yield
  have hcode : Codebase.nesting.Lexical := by
    refine ⟨fun code _ _ => ?_, fun _ _ _ => .perform (.pure _)⟩
    cases code with
    | zero => exact .perform (.pure _)
    | succ code => exact hp code
  obtain ⟨hblocks, _, hpasses⟩ := yield_finds_block hcode (hp 2) {} .silent () 0 3
  exact ⟨by decide +kernel, hblocks, hpasses⟩

end ExecutionContext
