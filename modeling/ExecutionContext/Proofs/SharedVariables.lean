import ExecutionContext.Proofs.Activations

/-! # Dynamic variables are shared outward and local inward

Programs whose operations write dynamic variables through the chain leave every caller's
chain as it was, and every activation of a block begins on the chain that the block
captured. What was visible when a block was created therefore means one cell wherever
the block's chain is held, and what was declared since is not seen in it.
-/

namespace ExecutionContext

variable {β σ : Type}

/-! ## Whole programs -/

theorem sustains_sharing {eval : Evaluator (Recorded β (Diary σ))} {F : Fault -> Prop}
    (he : eval.Keeps sharing)
    (hb : ∀ pattern receiver value strict,
      (eval.bind pattern receiver value strict).Keeps (Contract.balanced F))
    (hbind : ∀ pattern receiver value strict,
      (eval.bind pattern receiver value strict).Keeps (.proceeding (· ∈ pattern.names))) :
    Program.Sustains sharing eval Storing where
  point := notePoint_sharing
  leaf hop := hop.keeps.recorded_storing
  capture := captureBlock_sharing
  call number code hcode := by
    intro c hc
    unfold Program.callNumbered
    rw [Run.bind_of_ok (Run.get_apply c)]
    cases hbirth : c.host.births[number]? with
    | none => exact sharing.allows_ok hc _
    | some birth =>
        refine Layer.around_sharing hc hb (.withBlock birth.block) hcode rfl ?_
          (fun _ => ⟨rfl, rfl, rfl⟩) ?_
        · rintro inside rfl
          exact ⟨hc.attaching hbirth, (c.alike_attaching birth.block).proceeds⟩
        · rintro exit d ⟨⟩
  iteration {driver} callback data hdriver := by
    intro c hc
    unfold Program.iterateNumbered
    rw [Run.bind_of_ok (Program.noteCallback_eq c callback data)]
    obtain ⟨hborn, hl⟩ := recordingBirth_sharing hc .undeclared
      (.callback ⟨c.host.births.length, callback⟩ data) c.topSelf rfl
    obtain ⟨hcaptured, _, hproceeds⟩ := hborn.capturing
    refine Contract.Allows.of_links (Layer.around_sharing hborn hb
      (.iterate ⟨c.host.births.length, callback⟩ data) (hdriver _) rfl ?_
      (fun _ => ⟨rfl, rfl, rfl⟩) ?_) hl
    · rintro inside rfl
      exact ⟨hcaptured.attaching List.getElem?_concat_length,
        hproceeds.trans (Context.alike_attaching _ _).proceeds⟩
    · rintro exit d ⟨⟩
  yield value receiver cls strict := fun c hc =>
    yieldBlock_sharing he hc hb hbind value receiver cls strict
  method attached receiver name code hcode := by
    intro c hc
    have hnoted := (noteCall_sharing (ε := Signal) attached).bind fun _ => hcode
    refine Layer.around_sharing hc hb (.invoke receiver name) hnoted rfl ?_
      (fun _ => ⟨rfl, rfl, rfl⟩) ?_
    · rintro inside ⟨mark, _, rfl⟩
      have halike : c.Alike (c.invoking receiver name mark) := ⟨rfl, rfl, rfl⟩
      exact ⟨⟨hc.based.invoking receiver name mark, hc.blocks, hc.lineage⟩, halike.proceeds⟩
    · rintro exit d ⟨rfl, _⟩
      rfl
  moduleBody module code hcode := by
    intro c hc
    unfold Program.openNoted
    rw [Run.bind_of_ok (Run.get_apply c)]
    have hnoted := (noteCall_sharing (ε := Signal) (c.host.attached? c)).bind fun _ => hcode
    refine Layer.around_sharing hc hb (.openModule module) hnoted rfl ?_
      (fun _ => ⟨rfl, rfl, rfl⟩) ?_
    · rintro inside ⟨mark, _, rfl⟩
      have halike : c.Alike (c.openingModule module mark) := ⟨rfl, rfl, rfl⟩
      exact ⟨⟨hc.based.openingModule module mark, hc.blocks, hc.lineage⟩, halike.proceeds⟩
    · rintro exit d ⟨rfl, _⟩
      rfl

theorem starting_shares (config : Config) (errors : ErrorStream) (own : σ) (processId : Int64) :
    (Codebase.starting config errors { own := own } processId :
      Context (Recorded β (Diary σ))).Shares where
  based := Context.based_start rfl rfl processId
  blocks hm := by cases hm
  lineage := by
    refine ⟨⟨fun _ _ hw => ?_, List.nodup_nil, fun hm => ?_, fun hact => ?_⟩, fun hb => ?_,
      fun _ hm => ?_, fun _ hm => ?_, fun _ hm => ?_, fun _ hm => ?_⟩
    · cases hw
    · cases hm
    · cases hact
    · cases hb
    · cases hm
    · cases hm
    · cases hm
    · cases hm

namespace Codebase

variable {codebase : Codebase β (Diary σ)} {program : Program β (Diary σ)}

def notingJournal (code : Codebase β (Diary σ)) (program : Program β (Diary σ)) (config : Config)
    (errors : ErrorStream) (own : σ) (processId : Int64) (depth : Nat) : Journal β (Diary σ) :=
  ((do
    Journal.noteCall none
    program.run (code.evaluator .noting depth) none :
      Run Signal (Recorded β (Diary σ)) Value).after
    (starting config errors { own := own } processId)).host

theorem noting_bind_balanced (codebase : Codebase β (Diary σ)) (depth : Nat) (pattern : Pattern)
    (receiver value : Value) (strict : Bool) :
    ((codebase.evaluator .noting depth).bind pattern receiver value strict).Keeps
      (Contract.balanced fun _ => True) := by
  rw [evaluator_bind]
  exact (Binder.noting_balanced pattern receiver value strict).recorded_balanced

theorem noting_sustains_sharing (codebase : Codebase β (Diary σ)) (depth : Nat)
    (he : (codebase.evaluator .noting depth).Keeps sharing) :
    Program.Sustains sharing (codebase.evaluator .noting depth) Storing := by
  refine sustains_sharing he (codebase.noting_bind_balanced depth)
    fun pattern receiver value strict => ?_
  rw [evaluator_bind]
  exact (Binder.noting_storing (fun _ h => h) receiver value strict).recorded_storing

/-- What a whole run leaves tells where its dynamic variables come from. -/
theorem notingJournal_lineage (hcode : codebase.All Storing) (hp : program.All Storing)
    (config : Config) (errors : ErrorStream) (own : σ) (processId : Int64) (depth : Nat) :
    ∃ s count, (codebase.notingJournal program config errors own processId depth).Lineage s count := by
  have hbind : ∀ pattern receiver value strict, (Binder.noting pattern receiver value strict :
      Run Failure (Plain β (Diary σ)) Unit).recorded.Keeps sharing := fun _ receiver value strict =>
    (Binder.noting_storing (fun _ _ => trivial) receiver value strict).recorded_storing
  have he := evaluator_keeps hcode hbind codebase.noting_sustains_sharing depth
  have hrun := (noteCall_sharing none).bind fun _ =>
    (codebase.noting_sustains_sharing depth he).run_keeps program hp none
  exact ⟨_, _, (hrun _ (starting_shares config errors own processId)).after.1.lineage⟩

theorem noting_yield_chain (hcode : codebase.All Storing) (depth : Nat)
    (value receiver : Option Value) (cls : Option (Ref .module)) (strict : Bool)
    (pending : Option Nat) {c : Context (Recorded β (Diary σ))} (hc : c.Based) :
    (((Program.yield value receiver cls strict).run (codebase.evaluator .noting depth)
      pending).after c).chain = c.chain := by
  let l : Layer (Recorded β (Diary σ)) := .yield value receiver cls strict
  have he : (codebase.evaluator .noting depth).Keeps (.balanced fun _ => True) := by
    refine evaluator_keeps (hcode.mono Storing.balanced) ?_
      (fun _ he => Program.sustains_balanced he) depth
    exact fun pattern receiver value strict =>
      (Binder.noting_balanced pattern receiver value strict).recorded_balanced
  have hpoint : (Journal.notePoint pending : Run Signal (Recorded β (Diary σ)) Unit).Keeps
      (l.restoring fun _ => True) := by
    intro d hd
    exact ⟨⟨hd.frames, hd.scopes, hd.marks, hd.blocks⟩, ⟨rfl, rfl, rfl, rfl, .refl _⟩,
      rfl, rfl, rfl, rfl, rfl⟩
  have hyield : (Program.yieldWatched (codebase.evaluator .noting depth) value receiver cls
      strict).Keeps (l.restoring fun _ => True) := by
    refine Run.Keeps.get.bind fun d => ?_
    have hwatched := he.watching_balanced ⟨d.plain, receiver, cls⟩
    exact Layer.around_keeps_restoring hwatched Run.Keeps.exhausted l
  have hrun := (hpoint.bind fun _ => hyield) c hc
  exact hrun.after.2.2.2.2.1

end Codebase

/-! ## Who holds a captured chain -/

/-- The code that holds the chain which a block captured: its creator from then on, and all
activations of the block, and of the blocks that such code creates. -/
inductive Journal.Holds (journal : Journal β σ) (birth : Birth β σ) :
    Context (Plain β σ) -> Prop where
  | creation : journal.Holds birth birth.scene
  | creator {scene : Context (Plain β σ)} : scene ∈ journal.scenes ->
      scene.chain.activation? = birth.scene.chain.activation? ->
      birth.scene.blockCount < scene.blockCount -> journal.Holds birth scene
  | activation {pass : Pass β σ} {inner : Birth β σ} {scene : Context (Plain β σ)} :
      pass ∈ journal.passes -> journal.births[pass.number]? = some inner ->
      journal.Holds birth inner.scene -> scene ∈ journal.scenes ->
      scene.chain.activation? = pass.scene.chain.activation? -> journal.Holds birth scene

/-- Where the captured chain is held, a name that was visible keeps its cell. -/
theorem Journal.Lineage.find?_of_holds {journal : Journal β (Diary σ)} {s : Store} {count : Nat}
    (h : journal.Lineage s count) {birth : Birth β (Diary σ)} (hb : birth ∈ journal.births)
    {scene : Context (Plain β (Diary σ))} (hholds : journal.Holds birth scene) {name : String}
    {cell : Ref .link} (hfind : birth.scene.chain.find? name = some cell) :
    scene.chain.find? name = some cell := by
  induction hholds with
  | creation => exact hfind
  | creator hm hact hlater =>
      obtain ⟨_, hgrown⟩ := h.ordered _ (Journal.mem_scenes_of_birth hb) _ hm hact.symm
      exact Chain.find?_of_suffix (hgrown hlater).suffix (h.scenes _ hm).sound.nodup hfind
  | @activation pass inner scene hpass hinner _ hm hact ih =>
      obtain ⟨other, hother, ⟨mark, _, houtset⟩, _⟩ := h.passes pass hpass
      rw [hinner] at hother
      cases hother
      have hshown := Journal.mem_scenes_of_pass hpass
      have hsame := (h.ordered _ hm _ hshown hact).1.trans houtset
      have hsuffix : inner.scene.chain <:+ scene.chain := by
        refine (List.suffix_cons ⟨none, mark⟩ inner.scene.chain).trans ?_
        rw [← hsame]
        exact scene.chain.outset_suffix
      exact Chain.find?_of_suffix hsuffix (h.scenes _ hm).sound.nodup ih

/-! ## The main result -/

/-- Dynamic variables are shared outward and local inward: an activation sees those that its block
was created with, in the same cells, and leaves its caller none of its own. -/
theorem dynamic_variables_shared {codebase : Codebase β (Diary σ)} {program : Program β (Diary σ)}
    (hcode : codebase.All Storing) (hp : program.All Storing) (config : Config)
    (errors : ErrorStream) (own : σ) (processId : Int64) (depth : Nat) :
    let journal := codebase.notingJournal program config errors own processId depth
    -- Noting the writes down changes nothing else.
    (∀ {ε : Type} name value, (writeDynamic name value : Run ε (Plain β (Diary σ)) Unit).Mirrors
      (setDynamic name value)) ∧
    (∀ pattern receiver value strict,
      (Binder.noting pattern receiver value strict :
        Run Failure (Plain β (Diary σ)) Unit).Mirrors
          (Binder.default pattern receiver value strict)) ∧
    -- A name that was not visible at the creation of a block and is not one of its parameters is
    -- undefined where an activation begins.
    (∀ pass ∈ journal.passes, ∃ birth, journal.births[pass.number]? = some birth ∧
      pass.Begins birth ∧ (∀ other ∈ journal.passes, pass.Together other) ∧
      (journal.Opens pass -> ∀ name, birth.scene.chain.isDefined name = false ->
        name ∉ birth.block.params.names -> pass.scene.chain.isDefined name = false)) ∧
    (∀ nested value receiver cls strict pending (c : Context (Recorded β (Diary σ))), c.Based ->
      let d := ((Program.yield value receiver cls strict).run (codebase.evaluator .noting nested)
        pending).after c
      d.chain = c.chain ∧ d.chain.names = c.chain.names) ∧
    -- A name that was visible means one cell wherever the chain of the block is held, and a read
    -- answers with the latest write to it.
    (∀ birth ∈ journal.births, ∀ scene, journal.Holds birth scene -> ∀ name cell,
      birth.scene.chain.find? name = some cell -> scene.chain.find? name = some cell) ∧
    ∀ scene ∈ journal.scenes, ∀ name cell, scene.chain.find? name = some cell ->
      ∃ write, Write.latest? scene.host.writes cell = some write ∧ write.name = name ∧
        scene.chain.get? scene.bindings name = some write.value := by
  intro journal
  obtain ⟨s, count, hlineage⟩ := Codebase.notingJournal_lineage hcode hp config errors own
    processId depth
  refine ⟨writeDynamic_mirrors, Binder.noting_mirrors, fun pass hm => ?_,
    fun nested value receiver cls strict pending c hc => ?_,
    fun birth hb scene hholds name cell hfind => ?_, fun scene hm name cell hfind => ?_⟩
  · obtain ⟨birth, hbirth, hbegins, hgrown⟩ := hlineage.passes pass hm
    refine ⟨birth, hbirth, hbegins, hlineage.yields pass hm, fun hopens name hcaptured hparams => ?_⟩
    by_cases hdefined : pass.scene.chain.isDefined name = true
    · rcases (hgrown hopens).isDefined hdefined with hearlier | hparam
      · obtain ⟨mark, _, houtset⟩ := hbegins
        rw [houtset] at hearlier
        have hvisible : birth.scene.chain.isDefined name = true := hearlier
        rw [hcaptured] at hvisible
        cases hvisible
      · exact absurd hparam hparams
    · exact Bool.eq_false_iff.mpr hdefined
  · have hchain := Codebase.noting_yield_chain hcode nested value receiver cls strict pending hc
    exact ⟨hchain, congrArg Chain.names hchain⟩
  · exact hlineage.find?_of_holds hb hholds hfind
  · exact (hlineage.scenes scene hm).sound.exists_latest hfind

/-! ## A small program -/

def Program.write (name : String) (value : Int64) : Program β (Diary σ) :=
  .perform do
    writeDynamic name (.int value)
    return .nil

/-- A block writes a variable of its creator and one of its own, and calls a method with a block
that writes the former again. -/
def Codebase.sharing : Codebase Bool (Diary Unit) where
  body := fun outer _ _ =>
    if outer then
      .andThen (.write "shared" 2) fun _ => .andThen (.write "own" 3) fun _ =>
        .capture .undeclared none false fun number =>
          .withBlock number (.invoke .nil "inner" (.yield none none none false))
    else .write "shared" 4
  callback := fun _ _ _ => .perform (return .nil)

/-- Two yields to a block, after its creator declared one more variable. -/
def Program.sharing : Program Bool (Diary Unit) :=
  .andThen (.write "shared" 1) fun _ =>
    .capture (.pattern (.single "item")) none true fun number =>
      .andThen (.write "late" 5) fun _ =>
        .withBlock number <| .invoke .nil "outer" <|
          .andThen (.yield none none none false) fun _ => .yield none none none false

def Codebase.sharingJournal : Journal Bool (Diary Unit) :=
  Codebase.sharing.notingJournal .sharing {} .silent () 0 3

/-- Both activations of the block begin with its parameter and the variable that it shares. -/
theorem dynamic_variables_shared_nesting :
    Codebase.sharingJournal.passes.map (fun pass => pass.scene.chain.names) =
      [["item", "shared"], ["own", "item", "shared"], ["item", "shared"],
        ["own", "item", "shared"]] ∧
    Codebase.sharingJournal.passes.map (fun pass =>
        pass.scene.chain.get? pass.scene.bindings "shared") =
      [some (.int 1), some (.int 2), some (.int 4), some (.int 2)] ∧
    (∀ birth ∈ Codebase.sharingJournal.births, ∀ scene, Codebase.sharingJournal.Holds birth scene ->
      ∀ name cell, birth.scene.chain.find? name = some cell ->
        scene.chain.find? name = some cell) ∧
    ∀ scene ∈ Codebase.sharingJournal.scenes, ∀ name cell, scene.chain.find? name = some cell ->
      ∃ write, Write.latest? scene.host.writes cell = some write ∧ write.name = name ∧
        scene.chain.get? scene.bindings name = some write.value := by
  have hwrite : ∀ name value, (Program.write name value : Program Bool (Diary Unit)).All Storing :=
    fun name value => .write name (.int value) .nil
  have hcode : Codebase.sharing.All Storing := by
    refine ⟨fun outer _ _ => ?_, fun _ _ _ => .other (Run.Keeps.pure _) fun _ => ⟨rfl, rfl⟩⟩
    cases outer with
    | false => exact hwrite _ _
    | true => exact ⟨hwrite _ _, fun _ => ⟨hwrite _ _, fun _ _ => trivial⟩⟩
  have hp : Program.sharing.All Storing :=
    ⟨hwrite _ _, fun _ _ => ⟨hwrite _ _, fun _ => ⟨trivial, fun _ => trivial⟩⟩⟩
  obtain ⟨_, _, _, _, hcells, hreads⟩ := dynamic_variables_shared hcode hp {} .silent () 0 3
  exact ⟨by decide +kernel, by decide +kernel, hcells, hreads⟩

end ExecutionContext
