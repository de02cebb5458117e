import ExecutionContext.Proofs.Refusal
import ExecutionContext.Proofs.Scenes
import ExecutionContext.Proofs.Supplement

/-! # The limit on the depth of frames

Calls and module bodies begin within the limit on the depth of frames. Activations of
blocks push a frame as well, and ask nobody: inside the last call or module body, the
depth at a point exceeds the limit by at most the number of activations that were
entered in one another.
-/

namespace ExecutionContext

variable {β σ : Type}

/-! ## Activations in one another -/

/-- Code runs on the frames that a recorded call or module body began with, or inside that many
passes through blocks which began there, one in the other. -/
inductive Journal.Nested (journal : Journal β σ) : Nat -> Stack (Ref .frame) -> Prop where
  | call {call : Call β σ} : call ∈ journal.calls -> journal.Nested 0 call.scene.frames
  | pass {pass : Pass β σ} {entered : Nat} : pass ∈ journal.passes ->
      journal.Nested entered pass.yielding.site.frames ->
      journal.Nested (entered + 1) pass.scene.frames

theorem Journal.Nested.extend {old new : Journal β σ} {entered : Nat}
    {frames : Stack (Ref .frame)} (h : old.Nested entered frames) (hx : old.Extends new) :
    new.Nested entered frames := by
  induction h with
  | call hm => exact .call (hx.calls.subset hm)
  | pass hm _ ih => exact .pass (hx.passes.subset hm) ih

theorem Journal.nested_addCall (c : Context (Recorded β σ)) (attached : Option Nat) :
    (Journal.addCall c attached).Nested 0 c.frames := by
  have hlast : (⟨c.frames.top?.getD default, attached, c.plain⟩ : Call β σ) ∈
      (Journal.addCall c attached).calls :=
    List.mem_append_right _ (List.mem_singleton_self _)
  have hnested := Nested.call hlast
  exact hnested

/-! ## The ledger -/

/-- Calls begin within the limit that their scenes are configured with, passes one frame deeper
than their yields, and everything else runs on the frames of a call or a pass. -/
structure Journal.Layered (journal : Journal β σ) : Prop where
  calls : ∀ {call : Call β σ}, call ∈ journal.calls -> ∀ {limit}, 1 ≤ limit ->
    call.scene.config.maxCallDepth = some limit -> call.scene.frames.depth ≤ limit
  points : ∀ {point : Point β σ}, point ∈ journal.points ->
    ∃ entered, journal.Nested entered point.scene.frames
  passes : ∀ {pass : Pass β σ}, pass ∈ journal.passes ->
    ∃ frame, pass.scene.frames = pass.yielding.site.frames.push frame

theorem Journal.Layered.extend {journal new : Journal β σ} (h : journal.Layered)
    (hx : journal.Extends new)
    (hcalls : ∀ {call : Call β σ}, call ∈ new.calls -> call ∈ journal.calls ∨
      ∀ {limit}, call.scene.config.maxCallDepth = some limit -> call.scene.frames.depth ≤ limit)
    (hpoints : ∀ {point : Point β σ}, point ∈ new.points -> point ∈ journal.points ∨
      ∃ entered, new.Nested entered point.scene.frames)
    (hpasses : ∀ {pass : Pass β σ}, pass ∈ new.passes -> pass ∈ journal.passes ∨
      ∃ frame, pass.scene.frames = pass.yielding.site.frames.push frame) : new.Layered where
  calls hm limit hlimit hconfig := by
    rcases hcalls hm with hold | hnew
    · exact h.calls hold hlimit hconfig
    · exact hnew hconfig
  points hm := by
    rcases hpoints hm with hold | hnew
    · obtain ⟨entered, hn⟩ := h.points hold
      exact ⟨entered, hn.extend hx⟩
    · exact hnew
  passes hm := (hpasses hm).elim h.passes id

def Ledger.layered : Ledger β σ where
  Holds journal _ := journal.Layered
  of_kept own h _ :=
    h.extend (.own _ own) Or.inl Or.inl Or.inl

def Situation.nested : Situation β σ where
  Holds c := ∃ entered, c.host.Nested entered c.frames
  of_calm := by
    rintro c d ⟨entered, h⟩ hd hx
    refine ⟨entered, ?_⟩
    rw [hd.frames]
    exact h.extend hx

theorem depth_push {α : Type} (stack : Stack α) (entry : α) :
    (stack.push entry).depth = stack.depth + 1 := by
  simp only [Stack.depth, Stack.push, List.length_cons]
  omega

/-- The check lets a call through below the limit only. -/
theorem depth_lt_of_checkDepth {H : Host} {c : Context H} (h : checkDepth c = .ok () c)
    {limit : Nat} (hlimit : c.config.maxCallDepth = some limit) : c.frames.depth < limit := by
  by_cases hdepth : limit ≤ c.frames.depth
  · rw [checkDepth_refused hlimit hdepth] at h
    cases h
  · exact Nat.not_le.mp hdepth

theorem Context.OpensFrame.frames_eq {c inside : Context (Recorded β σ)} (h : c.OpensFrame inside) :
    inside.host = c.host ∧ inside.config = c.config ∧
      ∃ frame, inside.frames = c.frames.push frame := by
  cases h with
  | method receiver name mark => exact ⟨rfl, rfl, _, rfl⟩
  | moduleBody module mark => exact ⟨rfl, rfl, _, rfl⟩

theorem supplement_layered : Supplement (.layered : Ledger β σ) .nested where
  point {c} pending hc := by
    have hx : c.host.Extends { c.host with points := c.host.points ++ [⟨c.plain, pending⟩] } :=
      Journal.extends_point _ _
    refine hc.2.1.2.extend hx Or.inl (fun hm => ?_) Or.inl
    rcases List.mem_append.mp hm with hold | hnew
    · exact Or.inl hold
    · rw [List.mem_singleton.mp hnew]
      obtain ⟨entered, hn⟩ := hc.2.2.2
      exact Or.inr ⟨entered, hn.extend hx⟩
  birth {c} params code receiver hc := by
    have hx : c.host.Extends { c.host with
        births := c.host.births ++ [⟨c.capture params code receiver, c.plain⟩] } :=
      Journal.extends_birth _ _
    exact hc.2.1.2.extend hx Or.inl Or.inl Or.inl
  binding {c} binding hc := by
    have hx : c.host.Extends { c.host with bindings := c.host.bindings ++ [binding] } :=
      Journal.extends_binding _ _
    exact hc.2.1.2.extend hx Or.inl Or.inl Or.inl
  attaching _ hc := hc.2.2.2
  call {c inside} attached hc hdepth ho := by
    obtain ⟨hhost, hconfig, frame, hframes⟩ := ho.frames_eq
    have hx : inside.host.Extends (Journal.addCall inside attached) :=
      Journal.extends_call _ _
    have hlayered : inside.host.Layered := by
      rw [hhost]
      exact hc.2.1.2
    refine ⟨hlayered.extend hx (fun hm => ?_) Or.inl Or.inl, 0, Journal.nested_addCall _ _⟩
    rcases List.mem_append.mp hm with hold | hnew
    · exact Or.inl hold
    · rw [List.mem_singleton.mp hnew]
      refine Or.inr fun {limit} hlimit => ?_
      have hbelow : c.frames.depth < limit := by
        refine depth_lt_of_checkDepth hdepth ?_
        rw [← hconfig]
        exact hlimit
      show inside.frames.depth ≤ limit
      rw [hframes, depth_push]
      omega
  pass {c d block} receiver cls given hc ht hd hx hlawful hl := by
    have hx' : d.host.Extends
        (Journal.addPass d ⟨c.plain, receiver, cls⟩ block.code.number given) :=
      Journal.extends_pass _ _
    have hframes : d.frames = c.frames.push block.frame := hd.frames
    obtain ⟨entered, hn⟩ := hc.2.2.2
    have hlast : (⟨⟨c.plain, receiver, cls⟩, block.code.number, given, d.plain⟩ : Pass β σ) ∈
        (Journal.addPass d ⟨c.plain, receiver, cls⟩ block.code.number given).passes :=
      List.mem_append_right _ (List.mem_singleton_self _)
    have hnested := Journal.Nested.pass hlast ((hn.extend hx).extend hx')
    refine ⟨hl.extend hx' Or.inl Or.inl fun hm => ?_, entered + 1, hnested⟩
    rcases List.mem_append.mp hm with hold | hnew
    · exact Or.inl hold
    · rw [List.mem_singleton.mp hnew]
      exact Or.inr ⟨block.frame, hframes⟩

theorem starting_layered (config : Config) (errors : ErrorStream) (own : σ) (processId : Int64) :
    (lawfulWith (.layered : Ledger β σ) .nested).Allows
      (Codebase.starting config errors own processId)
      ((Journal.noteCall none : Run Signal (Recorded β σ) Unit)
        (Codebase.starting config errors own processId)) := by
  refine Supplement.starting_allows config errors own processId ⟨?_, ?_, ?_⟩
    ⟨0, Journal.nested_addCall _ _⟩
  · intro call hm limit hpositive _
    rw [List.mem_singleton.mp hm]
    exact hpositive
  · intro point hm
    cases hm
  · intro pass hm
    cases hm

/-! ## Runs with a limit -/

/-- Inside that many passes, the depth exceeds the limit at most by their number. -/
theorem Journal.Nested.depth_le {journal : Journal β σ} {limit entered : Nat}
    {frames : Stack (Ref .frame)} (h : journal.Nested entered frames)
    (hcalls : ∀ call ∈ journal.calls, call.scene.frames.depth ≤ limit)
    (hpasses : ∀ pass ∈ journal.passes,
      ∃ frame, pass.scene.frames = pass.yielding.site.frames.push frame) :
    frames.depth ≤ limit + entered := by
  induction h with
  | call hm => exact hcalls _ hm
  | @pass pass entered hm _ ih =>
      obtain ⟨frame, hframe⟩ := hpasses pass hm
      rw [hframe, depth_push]
      omega

def Configured (op : Run Signal (Plain β σ) Value) : Prop :=
  Quiet op ∧ ∀ c, (op.after c).config = c.config

/-- Calls and module bodies begin within the limit, and one more is refused and changes nothing;
but activations of blocks are not counted. -/
theorem calls_keep_to_limit {codebase : Codebase β σ} {program : Program β σ}
    (hcode : codebase.All Configured) (hp : program.All Configured) (config : Config)
    {limit : Nat} (hlimit : 1 ≤ limit) (hconfig : config.maxCallDepth = some limit)
    (errors : ErrorStream) (own : σ) (processId : Int64) (depth : Nat) :
    let journal := codebase.journal program config errors own processId depth
    (∀ call ∈ journal.calls, call.scene.frames.depth ≤ limit) ∧
    (∀ pass ∈ journal.passes,
      pass.scene.frames.depth = pass.yielding.site.frames.depth + 1) ∧
    -- So the depth exceeds the limit at most by the passes that began in one another since a call.
    (∀ point ∈ journal.points, ∃ entered, journal.Nested entered point.scene.frames ∧
      point.scene.frames.depth ≤ limit + entered) ∧
    ∀ point ∈ journal.points, limit ≤ point.scene.frames.depth ->
      let failure := point.scene.attach { cause := .depthExceeded limit }
      (∀ receiver method,
        pushFrame receiver method point.scene = .error (.raised failure) point.scene) ∧
      (∀ receiver method code, invoke receiver method code point.scene =
        .error (.raised (.failure failure)) point.scene) ∧
      ∀ module code, openModule module code point.scene =
        .error (.raised (.failure failure)) point.scene := by
  intro journal
  obtain ⟨_, _, hlayered⟩ := supplement_layered.journal_holds (hcode.mono And.left)
    (hp.mono And.left) config errors own processId depth (starting_layered config errors own _)
  have hscenes : ∀ scene ∈ journal.scenes, scene.config = config :=
    Codebase.forall_scenes (fun hstep hc => hstep.config.trans hc)
      (fun hop c hc => (hop.2 c).trans hc) hcode hp config errors own processId depth rfl
  have hcalls : ∀ call ∈ journal.calls, call.scene.frames.depth ≤ limit := by
    intro call hm
    refine hlayered.calls hm hlimit ?_
    rw [hscenes _ (Journal.mem_scenes_of_call hm), hconfig]
  refine ⟨hcalls, fun pass hm => ?_, fun point hm => ?_, fun point hm hdepth => ?_⟩
  · obtain ⟨frame, hframe⟩ := hlayered.passes hm
    rw [hframe, depth_push]
  · obtain ⟨entered, hn⟩ := hlayered.points hm
    exact ⟨entered, hn, hn.depth_le hcalls fun pass hm => hlayered.passes hm⟩
  · refine frames_refused ?_ hdepth
    rw [hscenes _ (Journal.mem_scenes_of_point hm), hconfig]

/-- A run with room for two frames: the block of a call yields in turn. -/
def Codebase.limitedJournal : Journal Nat Unit :=
  Codebase.nesting.journal (.yieldingOnce 1) { maxCallDepth := some 2 } .silent () 0 2

/-- In the block a third frame is there, and the call in it is refused. -/
theorem calls_keep_to_limit_nesting :
    Codebase.limitedJournal.points.map (fun point => point.scene.frames.depth) =
      [1, 1, 1, 2, 3, 3, 3] ∧
    (∀ call ∈ Codebase.limitedJournal.calls, call.scene.frames.depth ≤ 2) ∧
    ∀ point ∈ Codebase.limitedJournal.points, ∃ entered,
      Codebase.limitedJournal.Nested entered point.scene.frames ∧
        point.scene.frames.depth ≤ 2 + entered := by
  have hreturn : Configured (return .nil : Run Signal (Plain Nat Unit) Value) :=
    ⟨Run.Keeps.pure _, fun _ => rfl⟩
  have hcode : Codebase.nesting.All Configured := by
    refine ⟨fun code _ _ => ?_, fun _ _ _ => hreturn⟩
    cases code with
    | zero => exact hreturn
    | succ code => exact fun _ => trivial
  have hp : (Program.yieldingOnce 1).All Configured := fun _ => trivial
  have hlimit : 1 ≤ 2 := by decide
  obtain ⟨hcalls, _, hpoints, _⟩ := calls_keep_to_limit hcode hp { maxCallDepth := some 2 } hlimit
    rfl .silent () 0 2
  exact ⟨by decide +kernel, hcalls, hpoints⟩

/-- With room for two frames, a call whose block is yielded to ends with an answer, and the block
runs on three. -/
theorem activation_beyond_limit :
    let run := Codebase.nesting.execute (.yieldingOnce 0) 1
    let initial := Codebase.starting { maxCallDepth := some 2 } .silent () 0
    run.answer? initial = some .nil ∧
      ¬ ∀ point ∈ (run.after initial).host.points, point.scene.frames.depth ≤ 2 := by
  decide +kernel

end ExecutionContext
