import ExecutionContext.Proofs.Escape
import ExecutionContext.Proofs.Opening

/-! # Where a signal ends

Layers nest to any depth, and each may be in a later round of its code. A signal
raised at the innermost point is handed on by every layer that gives it no meaning,
unchanged, and comes to the first that gives it one. The layers further out see only
what that layer makes of it.
-/

namespace ExecutionContext

variable {H : Host}

/-! ## Nests of layers -/

/-- A layer whose code may run so many times, first in the one context, comes to run it in the
other, after which it may run so many times more. -/
inductive Layer.Rounds (l : Layer H) (code : Run Signal H Value) :
    Nat -> Context H -> Nat -> Context H -> Prop where
  | first (left : Nat) (c : Context H) : Rounds l code (left + 1) c left c
  -- A round that ends in a signal which the layer repeats is followed by another one.
  | again {limit left : Nat} {c d e : Context H} {signal : Signal} :
      code c = .error (.raised signal) d -> l.rule d.heap signal = .repeated ->
      Rounds l code limit d left e -> Rounds l code (limit + 1) c left e

/-- A layer under way: the operation and the code it was given, the contexts in which it was
called, its first round started and its present round started, its closing, and the number of
rounds that may follow. -/
structure Level (H : Host) where
  eval : Evaluator H
  layer : Layer H
  callback : Run Signal H Value
  outside : Context H
  inside : Context H
  again : Context H
  close : Run Signal H Unit
  left : Nat

namespace Level

def code (level : Level H) : Run Signal H Value :=
  level.layer.codeAt level.eval level.callback level.outside

def rest (level : Level H) : Run Signal H Value :=
  level.layer.rounds level.code level.left

def rule (level : Level H) : Rule :=
  level.layer.rule

structure UnderWay (level : Level H) : Prop where
  opened : level.layer.opening level.eval level.outside = .ok level.close level.inside
  round : level.layer.Rounds level.code level.eval.limit level.inside level.left level.again

/-- A layer that was just opened, if it opens at all. -/
def start (eval : Evaluator H) (layer : Layer H) (callback : Run Signal H Value)
    (outside : Context H) : Level H :=
  let inside := (layer.opening eval).after outside
  { eval := eval
    layer := layer
    callback := callback
    outside := outside
    inside := inside
    again := inside
    close :=
      match layer.opening eval outside with
      | .ok close _ => close
      | .error _ _ => return ()
    left := eval.limit - 1 }

theorem start_underWay {eval : Evaluator H} {layer : Layer H} {callback : Run Signal H Value}
    {outside inside : Context H} {close : Run Signal H Unit} {left : Nat}
    (h : layer.opening eval outside = .ok close inside) (hl : eval.limit = left + 1) :
    (start eval layer callback outside).UnderWay := by
  refine ⟨?_, ?_⟩
  · simp only [start, Run.after_of_ok h, h]
  · simp only [start, hl]
    exact .first left _

/-- How the layer ends when the present round of its code ends like this. -/
def ending (level : Level H) (r : EStateM.Result (Exit Signal) (Context H) Value) :
    EStateM.Result (Exit Signal) (Context H) Value :=
  Run.ensuring (fun _ => level.rule.settle level.rest r) level.close level.again

end Level

/-- A run comes down to the innermost run, at its point, through a nest of layers. Between two
layers code may do anything that ends with passing on what the next layer gives it. -/
inductive Reaches (inner : Run Signal H Value) (point : Context H) :
    List (Level H) -> Run Signal H Value -> Context H -> Prop where
  | here : Reaches inner point [] inner point
  | passing {levels : List (Level H)} {run next : Run Signal H Value} {c d : Context H} :
      run c = next d -> Reaches inner point levels next d -> Reaches inner point levels run c
  | inside {levels : List (Level H)} (level : Level H) :
      level.UnderWay -> Reaches inner point levels level.code level.again ->
      Reaches inner point (level :: levels) (level.layer.around level.eval level.callback)
        level.outside

/-- How a nest ends when its innermost run ends like this. -/
def ending (levels : List (Level H)) (r : EStateM.Result (Exit Signal) (Context H) Value) :
    EStateM.Result (Exit Signal) (Context H) Value :=
  levels.foldr Level.ending r

def closeAll : List (Level H) -> Run Signal H Unit
  | [] => return ()
  | level :: levels => do
      closeAll levels
      level.close

def giveBackAll (levels : List (Level H)) (d : Context H) : Context H :=
  levels.foldr (fun level d => level.layer.giveBack level.outside d) d

/-! ## A nest ends as its innermost run ends -/

theorem Layer.Rounds.rounds_eq {l : Layer H} {code : Run Signal H Value} {limit left : Nat}
    {c d : Context H} (h : l.Rounds code limit c left d) :
    l.rounds code limit c = l.rule.settle (l.rounds code left) (code d) := by
  induction h with
  | first left c => exact l.rounds_succ code left c
  | again hc hm _ ih =>
      rw [Layer.rounds_succ, hc]
      simp only [Rule.settle, hm]
      exact ih

theorem Level.UnderWay.around_eq {level : Level H} (h : level.UnderWay) :
    level.layer.around level.eval level.callback level.outside =
      level.ending (level.code level.again) := by
  rw [Layer.around_eq, Run.bind_of_ok h.opened]
  unfold Level.ending Run.ensuring
  rw [show level.layer.codeAt level.eval level.callback level.outside = level.code from rfl,
    h.round.rounds_eq]
  rfl

theorem Reaches.underWay {inner run : Run Signal H Value} {point c : Context H}
    {levels : List (Level H)} (h : Reaches inner point levels run c) :
    ∀ level ∈ levels, level.UnderWay := by
  induction h with
  | here => simp
  | passing _ _ ih => exact ih
  | inside level hopen _ ih =>
      intro other hmem
      rcases List.mem_cons.mp hmem with rfl | hmem
      · exact hopen
      · exact ih other hmem

/-- A nest ends the way that its innermost run makes its layers end, one after another. -/
theorem Reaches.run_eq {inner run : Run Signal H Value} {point c : Context H}
    {levels : List (Level H)} (h : Reaches inner point levels run c) :
    run c = ending levels (inner point) := by
  induction h with
  | here => rfl
  | passing hrun _ ih => exact hrun.trans ih
  | inside level hopen _ ih =>
      rw [hopen.around_eq, ih]
      rfl

theorem ending_append (outer levels : List (Level H))
    (r : EStateM.Result (Exit Signal) (Context H) Value) :
    ending (outer ++ levels) r = ending outer (ending levels r) :=
  List.foldr_append

/-! ## Handing on -/

/-- No layer of the nest gives the end of a run a meaning. -/
def Ignored (levels : List (Level H)) (heap : Heap) (exit : Exit Signal) : Prop :=
  ∀ level ∈ levels, ∀ signal, exit = .raised signal -> level.rule heap signal = .passed

theorem settle_ignored {rule : Rule} {again : Run Signal H Value} {exit : Exit Signal}
    {d : Context H} (h : ∀ signal, exit = .raised signal -> rule d.heap signal = .passed) :
    rule.settle again (.error exit d) = .error exit d := by
  cases exit with
  | fault fault => rfl
  | exhausted => rfl
  | raised signal => simp only [Rule.settle, h signal rfl]

theorem closeAll_tidy {levels : List (Level H)} (h : ∀ level ∈ levels, level.UnderWay) :
    (closeAll levels).Tidy := by
  induction levels with
  | nil => exact Run.Tidy.pure _
  | cons level levels ih =>
      have hlevel := h level List.mem_cons_self
      exact (ih fun other hmem => h other (List.mem_cons_of_mem _ hmem)).bind fun _ =>
        Layer.opening_tidy hlevel.opened

theorem closeAll_heap {levels : List (Level H)} (h : ∀ level ∈ levels, level.UnderWay)
    {d e : Context H} (hclose : closeAll levels d = .ok () e) : e.heap = d.heap := by
  rcases closeAll_tidy h d with ⟨_, m, hm, hheap⟩ | ⟨fault, m, hm, _⟩
  · cases hm.symm.trans hclose
    exact hheap
  · cases hm.symm.trans hclose

theorem closeAll_cons {level : Level H} {levels : List (Level H)} {d e : Context H}
    (hclose : closeAll (level :: levels) d = .ok () e) :
    ∃ m, closeAll levels d = .ok () m ∧ level.close m = .ok () e := by
  cases hm : closeAll levels d with
  | ok _ m => exact ⟨m, rfl, (Run.bind_of_ok hm).symm.trans hclose⟩
  | error exit m => cases (Run.bind_of_error hm).symm.trans hclose

theorem ending_ok {levels : List (Level H)} {d e : Context H}
    (hclose : closeAll levels d = .ok () e) (value : Value) :
    ending levels (.ok value d) = .ok value e := by
  induction levels generalizing e with
  | nil => cases hclose; rfl
  | cons level levels ih =>
      obtain ⟨m, hm, he⟩ := closeAll_cons hclose
      change level.ending (ending levels _) = _
      rw [ih hm]
      simp only [Level.ending, Run.ensuring, Rule.settle, he]

/-- An end to which no layer gives a meaning is handed on unchanged. -/
theorem ending_ignored {levels : List (Level H)} (h : ∀ level ∈ levels, level.UnderWay)
    {d e : Context H} (hclose : closeAll levels d = .ok () e) {exit : Exit Signal}
    (hi : Ignored levels d.heap exit) : ending levels (.error exit d) = .error exit e := by
  induction levels generalizing e with
  | nil => cases hclose; rfl
  | cons level levels ih =>
      have hrest := fun other hmem => h other (List.mem_cons_of_mem _ hmem)
      obtain ⟨m, hm, he⟩ := closeAll_cons hclose
      change level.ending (ending levels _) = _
      rw [ih hrest hm fun other hmem => hi other (List.mem_cons_of_mem _ hmem)]
      have hlevel := hi level List.mem_cons_self
      rw [← closeAll_heap hrest hm] at hlevel
      simp only [Level.ending, Run.ensuring, settle_ignored hlevel, he]

/-! ## A broken stack discipline -/

def Faulted (r : EStateM.Result (Exit Signal) (Context H) Value) : Prop :=
  ∃ fault d, r = .error (.fault fault) d

theorem Level.UnderWay.ending_faulted {level : Level H} (h : level.UnderWay)
    {r : EStateM.Result (Exit Signal) (Context H) Value} (hr : Faulted r) :
    Faulted (level.ending r) := by
  obtain ⟨fault, d, rfl⟩ := hr
  rcases Layer.opening_tidy h.opened d with ⟨_, e, he, _⟩ | ⟨other, e, he, _⟩
  · exact ⟨fault, e, by simp only [Level.ending, Run.ensuring, Rule.settle, he]⟩
  · exact ⟨other, e, by simp only [Level.ending, Run.ensuring, Rule.settle, he]⟩

theorem ending_faulted {levels : List (Level H)} (h : ∀ level ∈ levels, level.UnderWay)
    {r : EStateM.Result (Exit Signal) (Context H) Value} (hr : Faulted r) :
    Faulted (ending levels r) := by
  induction levels with
  | nil => exact hr
  | cons level levels ih =>
      have hlevel := h level List.mem_cons_self
      exact hlevel.ending_faulted (ih fun other hmem => h other (List.mem_cons_of_mem _ hmem))

/-- When an ignored end is not handed on, that is because a closing met a broken stack. -/
theorem closeAll_or_faulted {levels : List (Level H)} (h : ∀ level ∈ levels, level.UnderWay)
    {d : Context H} {exit : Exit Signal} (hi : Ignored levels d.heap exit) :
    (∃ e, closeAll levels d = .ok () e) ∨ Faulted (ending levels (.error exit d)) := by
  induction levels with
  | nil => exact Or.inl ⟨d, rfl⟩
  | cons level levels ih =>
      have hlevel := h level List.mem_cons_self
      have hrest := fun other hmem => h other (List.mem_cons_of_mem _ hmem)
      have hirest := fun other hmem => hi other (List.mem_cons_of_mem _ hmem)
      rcases ih hrest hirest with ⟨m, hm⟩ | hf
      · rcases Layer.opening_tidy hlevel.opened m with ⟨_, e, he, _⟩ | ⟨fault, e, he, _⟩
        · exact Or.inl ⟨e, (Run.bind_of_ok hm).trans he⟩
        · refine Or.inr ⟨fault, e, ?_⟩
          have hpass := hi level List.mem_cons_self
          rw [← closeAll_heap hrest hm] at hpass
          change level.ending (ending levels _) = _
          rw [ending_ignored hrest hm hirest]
          simp only [Level.ending, Run.ensuring, settle_ignored hpass, he]
      · exact Or.inr (hlevel.ending_faulted hf)

/-! ## Balanced callbacks -/

/-- Between the layers, and in the rounds of a layer so far, code left the stacks as it found
them. -/
def KeptDownTo (point : Context H) : Context H -> List (Level H) -> Prop
  | c, [] => c.SameStacks point
  | c, level :: levels =>
      c.SameStacks level.outside ∧ level.inside.SameStacks level.again ∧
        KeptDownTo point level.again levels

theorem Level.UnderWay.close_eq {F : Fault -> Prop} {level : Level H} (h : level.UnderWay)
    (hc : level.outside.Based)
    (hb : ∀ pattern receiver value strict,
      (level.eval.bind pattern receiver value strict).Keeps (Contract.balanced F)) :
    level.inside.Based ∧ ∀ d, level.inside.SameStacks d ->
      level.close d = .ok () (level.layer.giveBack level.outside d) ∧
        level.outside.SameStacks (level.layer.giveBack level.outside d) := by
  have ho := h.opened
  rcases Layer.opens hc hb level.layer with ⟨close, inside, hopen, he, hclose⟩ | ⟨exit, d, hopen, _⟩
  · rw [ho] at hopen
    cases hopen
    exact ⟨he.based hc hb, fun d hd => ⟨hclose d hd, he.sameStacks_giveBack hd⟩⟩
  · rw [ho] at hopen
    cases hopen

theorem closeAll_eq {F : Fault -> Prop} {point c d : Context H} {levels : List (Level H)}
    (h : ∀ level ∈ levels, level.UnderWay)
    (hb : ∀ level ∈ levels, ∀ pattern receiver value strict,
      (level.eval.bind pattern receiver value strict).Keeps (Contract.balanced F))
    (hc : c.Based) (hk : KeptDownTo point c levels) (hd : point.SameStacks d) :
    (∀ outer passed, levels = outer ++ passed ->
      closeAll passed d = .ok () (giveBackAll passed d)) ∧ c.SameStacks (giveBackAll levels d) := by
  -- From the outside in: each level's code keeps the stacks that the level opened with, so the
  -- levels inside it close first and leave them to its own closing.
  induction levels generalizing c with
  | nil =>
      refine ⟨fun outer passed hl => ?_, hk.trans hd⟩
      obtain ⟨rfl, rfl⟩ := List.nil_eq_append_iff.mp hl
      rfl
  | cons level levels ih =>
      obtain ⟨houtside, hagain, hrest⟩ := hk
      have hlevel := h level List.mem_cons_self
      obtain ⟨hinside, hclose⟩ :=
        hlevel.close_eq (houtside.based hc) (hb level List.mem_cons_self)
      obtain ⟨hcloses, hsame⟩ := ih (fun other hmem => h other (List.mem_cons_of_mem _ hmem))
        (fun other hmem => hb other (List.mem_cons_of_mem _ hmem)) (hagain.based hinside) hrest
      obtain ⟨hback, hgiven⟩ := hclose _ (hagain.trans hsame)
      refine ⟨fun outer passed hl => ?_, houtside.trans hgiven⟩
      cases outer with
      | nil =>
          rw [← show level :: levels = passed from hl]
          exact (Run.bind_of_ok (hcloses [] levels rfl)).trans hback
      | cons first outer =>
          obtain ⟨_, hl⟩ := List.cons.inj hl
          exact hcloses outer passed hl

/-! ## The main result -/

/-- What becomes of a signal raised in `d` at the innermost point of a nest that ends in `r`. -/
structure Routed (levels : List (Level H)) (signal : Signal) (d : Context H)
    (r : EStateM.Result (Exit Signal) (Context H) Value) : Prop where
  -- Without a layer that gives it a meaning, the signal comes out unchanged.
  handed : Ignored levels d.heap (.raised signal) ->
    ∀ e, closeAll levels d = .ok () e -> r = .error (.raised signal) e
  -- The innermost layer that gives it a meaning may answer, and its answer comes out.
  answered : ∀ outer level passed value, levels = outer ++ level :: passed ->
    Ignored passed d.heap (.raised signal) -> level.rule d.heap signal = .answered value ->
    ∀ e, closeAll levels d = .ok () e -> r = .ok value e
  -- Or that layer runs its code again, from the context that came to it.
  repeated : ∀ outer level passed, levels = outer ++ level :: passed ->
    Ignored passed d.heap (.raised signal) -> level.rule d.heap signal = .repeated ->
    ∀ e, closeAll passed d = .ok () e -> r = ending outer (level.rest.ensuring level.close e)
  -- Or that layer never comes to a decision, as when two cyclic tags are compared.
  undecided : ∀ outer level passed, levels = outer ++ level :: passed ->
    Ignored passed d.heap (.raised signal) -> level.rule d.heap signal = .undecided ->
    ∀ e, closeAll levels d = .ok () e -> r = .error .exhausted e
  -- Only a broken stack discipline keeps the layers passed from closing.
  closed : ∀ outer passed, levels = outer ++ passed -> Ignored passed d.heap (.raised signal) ->
    (∃ e, closeAll passed d = .ok () e) ∨ Faulted r

theorem closeAll_append (outer passed : List (Level H)) :
    closeAll (outer ++ passed) = (do closeAll passed; closeAll outer) := by
  induction outer with
  | nil => exact (bind_pure _).symm
  | cons level outer ih =>
      change (do closeAll (outer ++ passed); level.close) = _
      rw [ih, bind_assoc]
      rfl

/-- A signal comes to a level through the levels that ignore it, and is settled there. -/
theorem ending_arrived {outer passed : List (Level H)} {level : Level H}
    (h : ∀ other ∈ outer ++ level :: passed, other.UnderWay) {d e : Context H} {signal : Signal}
    (hclose : closeAll passed d = .ok () e) (hi : Ignored passed d.heap (.raised signal)) :
    ending (outer ++ level :: passed) (.error (.raised signal) d) =
      ending outer (level.ending (.error (.raised signal) e)) ∧ e.heap = d.heap := by
  have hpassed : ∀ other ∈ passed, other.UnderWay := fun other hmem =>
    h other (List.mem_append_right _ (List.mem_cons_of_mem _ hmem))
  refine ⟨?_, closeAll_heap hpassed hclose⟩
  rw [ending_append]
  change ending outer (level.ending (ending passed _)) = _
  rw [ending_ignored hpassed hclose hi]

theorem closeAll_split {outer passed : List (Level H)} {level : Level H} {d e : Context H}
    (h : closeAll (outer ++ level :: passed) d = .ok () e) :
    ∃ m n, closeAll passed d = .ok () m ∧ level.close m = .ok () n ∧
      closeAll outer n = .ok () e := by
  rw [closeAll_append] at h
  cases hn : closeAll (level :: passed) d with
  | error exit n => cases (Run.bind_of_error hn).symm.trans h
  | ok _ n =>
      obtain ⟨m, hm, hlevel⟩ := closeAll_cons hn
      exact ⟨m, n, hm, hlevel, (Run.bind_of_ok hn).symm.trans h⟩

theorem routed_of_underWay {levels : List (Level H)} (h : ∀ level ∈ levels, level.UnderWay)
    (signal : Signal) (d : Context H) :
    Routed levels signal d (ending levels (.error (.raised signal) d)) where
  handed hi e hclose := ending_ignored h hclose hi
  answered outer level passed value hl hi hm e hclose := by
    subst hl
    obtain ⟨m, n, hpassed, hlevel, houter⟩ := closeAll_split hclose
    obtain ⟨harrived, hheap⟩ := ending_arrived h hpassed hi
    rw [← hheap] at hm
    have hending : level.ending (.error (.raised signal) m) = .ok value n := by
      simp only [Level.ending, Run.ensuring, Rule.settle, hm, hlevel]
    rw [harrived, hending, ending_ok houter]
  repeated outer level passed hl hi hm e hclose := by
    subst hl
    obtain ⟨harrived, hheap⟩ := ending_arrived h hclose hi
    rw [← hheap] at hm
    rw [harrived]
    simp only [Level.ending, Run.ensuring, Rule.settle, hm]
  undecided outer level passed hl hi hm e hclose := by
    subst hl
    obtain ⟨m, n, hpassed, hlevel, houter⟩ := closeAll_split hclose
    obtain ⟨harrived, hheap⟩ := ending_arrived h hpassed hi
    rw [← hheap] at hm
    have hending : level.ending (.error (.raised signal) m) = .error .exhausted n := by
      simp only [Level.ending, Run.ensuring, Rule.settle, hm, hlevel]
    have hrest : ∀ other ∈ outer, other.UnderWay := fun other hmem =>
      h other (List.mem_append_left _ hmem)
    rw [harrived, hending]
    exact ending_ignored hrest houter fun _ _ _ hx => by cases hx
  closed outer passed hl hi := by
    subst hl
    have hpassed : ∀ level ∈ passed, level.UnderWay := fun level hmem =>
      h level (List.mem_append_right _ hmem)
    have houter : ∀ level ∈ outer, level.UnderWay := fun level hmem =>
      h level (List.mem_append_left _ hmem)
    rw [ending_append]
    exact (closeAll_or_faulted hpassed hi).imp_right (ending_faulted houter)

/-- A signal raised at the innermost point of a nest is routed, and balanced callbacks break no
stack on its way. -/
theorem signals_routed :
    (∀ {H : Host} {inner run : Run Signal H Value} {point c d : Context H}
      {levels : List (Level H)} {signal : Signal},
      Reaches inner point levels run c -> inner point = .error (.raised signal) d ->
        Routed levels signal d (run c) ∧
        ∀ {F : Fault -> Prop}, c.Based ->
          (∀ level ∈ levels, ∀ pattern receiver value strict,
            (level.eval.bind pattern receiver value strict).Keeps (Contract.balanced F)) ->
          KeptDownTo point c levels -> point.SameStacks d ->
          (∀ outer passed, levels = outer ++ passed ->
            closeAll passed d = .ok () (giveBackAll passed d)) ∧
          c.SameStacks (giveBackAll levels d)) ∧
    -- Whatever the callbacks, an operation raises no signal that it gives a meaning; so what leaves
    -- a call with a block around a method that yields is a failure or a throw.
    ∀ {H : Host} {eval : Evaluator H} {code : Run Signal H Value} {c d : Context H}
      {signal : Signal},
      (∀ l : Layer H, l.around eval code c = .error (.raised signal) d ->
        l.rule d.heap signal = .passed ∧ ((∃ failure, signal = .failure failure) ∨
          ∃ e f, l.codeAt eval code c e = .error (.raised signal) f)) ∧
      (∀ value receiver cls strict,
        yieldBlock eval value receiver cls strict c = .error (.raised signal) d ->
        signal ≠ .next ∧ signal ≠ .redo ∧ ∀ carried, signal ≠ .returnWith carried) ∧
      (∀ driver data1 callback data2,
        iterate eval driver data1 callback data2 c = .error (.raised signal) d ->
        signal ≠ .retry ∧ (∀ carried, signal ≠ .breakWith carried) ∧
          ∀ carried, signal ≠ .returnWith carried) ∧
      (∀ block, callWithBlock eval block code c = .error (.raised signal) d ->
        signal ≠ .retry ∧ ∀ carried, signal ≠ .breakWith carried) ∧
      (∀ receiver method, invoke receiver method code c = .error (.raised signal) d ->
        ∀ carried, signal ≠ .returnWith carried) ∧
      (∀ tag, catchTag tag code c = .error (.raised signal) d ->
        ∀ thrown carried, signal = .throwTo thrown carried ->
          d.heap.equal? thrown tag = some false) ∧
      ∀ block receiver method value override cls strict,
        callWithBlock eval block
          (invoke receiver method (yieldBlock eval value override cls strict)) c =
            .error (.raised signal) d ->
        (∃ failure, signal = .failure failure) ∨ ∃ tag carried, signal = .throwTo tag carried := by
  refine ⟨?_, ?_⟩
  · intro H inner run point c d levels signal hreach hinner
    have hway := hreach.underWay
    rw [hreach.run_eq, hinner]
    refine ⟨routed_of_underWay hway signal d, ?_⟩
    intro F hc hb hk hd
    exact closeAll_eq hway hb hc hk hd
  · intro H eval code c d signal
    refine ⟨fun l h => Layer.around_raised h, ?_, ?_, ?_, ?_, ?_, ?_⟩
    · intro value receiver cls strict h
      exact yieldBlock_raised h
    · intro driver data1 callback data2 h
      exact iterate_raised h
    · intro block h
      exact ⟨(callWithBlock_raised h).1, (callWithBlock_raised h).2.1⟩
    · intro receiver method h
      exact (invoke_raised h).1
    · intro tag h
      exact catchTag_raised h
    · intro block receiver method value override cls strict h
      exact callYielding_raised h

/-- A method that yields, called with a block whose body raises the signal. -/
def yieldRaising (signal : Signal) : Run Signal Bare Value :=
  callWithBlock (.raising signal) (Context.bare.capture .undeclared (.body ()) .nil)
    (invoke .nil "each" (yieldBlock (.raising signal) none none none false))

def levelsRaising (signal : Signal) : Level Bare × Level Bare × Level Bare :=
  let call : Level Bare :=
    .start (.raising signal) (.withBlock (Context.bare.capture .undeclared (.body ()) .nil))
      (invoke .nil "each" (yieldBlock (.raising signal) none none none false)) Context.bare
  let method : Level Bare :=
    .start (.raising signal) (.invoke .nil "each")
      (yieldBlock (.raising signal) none none none false) call.inside
  let yielding : Level Bare :=
    .start (.raising signal) (.yield none none none false) Run.exhausted method.inside
  (call, method, yielding)

theorem levelsRaising_nest (signal : Signal) :
    let (call, method, yielding) := levelsRaising signal
    Reaches (Run.raise signal) yielding.again [call, method, yielding] (yieldRaising signal)
        Context.bare ∧
      (∀ level ∈ [call, method, yielding], ∀ pattern receiver value strict,
        (level.eval.bind pattern receiver value strict).Keeps
          (Contract.balanced fun _ => False)) ∧
      KeptDownTo yielding.again Context.bare [call, method, yielding] := by
  refine ⟨?_, ?_, .refl _, .refl _, .refl _, .refl _, .refl _, .refl _, .refl _⟩
  · refine .inside (levelsRaising signal).1 (Level.start_underWay rfl rfl) ?_
    refine .inside (levelsRaising signal).2.1 (Level.start_underWay rfl rfl) ?_
    exact .inside (levelsRaising signal).2.2 (Level.start_underWay rfl rfl) .here
  · simp only [List.mem_cons, List.not_mem_nil, or_false, forall_eq_or_imp, forall_eq]
    exact ⟨fun _ _ _ _ => .pure _, fun _ _ _ _ => .pure _, fun _ _ _ _ => .pure _⟩

/-- A `break` in the block ends the call with its value, and a throw leaves the call. -/
theorem break_ends_call :
    (∃ e, yieldRaising (.breakWith (.int 7)) Context.bare = .ok (.int 7) e ∧
      Context.bare.SameStacks e) ∧
    ∃ e, yieldRaising (.throwTo .nil .nil) Context.bare =
        .error (.raised (.throwTo .nil .nil)) e ∧
      ((∃ failure, Signal.throwTo .nil .nil = .failure failure) ∨
        ∃ tag carried, Signal.throwTo .nil .nil = .throwTo tag carried) := by
  have hroute : ∀ signal, ∃ call method yielding : Level Bare,
      call.layer = .withBlock (Context.bare.capture .undeclared (.body ()) .nil) ∧
      method.layer = .invoke .nil "each" ∧ yielding.layer = .yield none none none false ∧
      ∃ d e, Routed [call, method, yielding] signal d (yieldRaising signal Context.bare) ∧
        closeAll [call, method, yielding] d = .ok () e ∧ Context.bare.SameStacks e := by
    intro signal
    let call := (levelsRaising signal).1
    let method := (levelsRaising signal).2.1
    let yielding := (levelsRaising signal).2.2
    obtain ⟨hreach, hbind, hkept⟩ := levelsRaising_nest signal
    obtain ⟨hrouted, hbalanced⟩ := signals_routed.1 hreach rfl
    obtain ⟨hclose, hsame⟩ := hbalanced Context.based_bare hbind hkept (.refl _)
    exact ⟨call, method, yielding, rfl, rfl, rfl, _, _, hrouted, hclose [] _ rfl, hsame⟩
  refine ⟨?_, ?_⟩
  · obtain ⟨call, method, yielding, hcall, hmethod, hyielding, d, e, hrouted, hclose, hsame⟩ :=
      hroute (.breakWith (.int 7))
    refine ⟨e, hrouted.answered [] call [method, yielding] (.int 7) rfl ?_ ?_ e hclose, hsame⟩
    · rintro level hmem _ ⟨⟩
      simp only [List.mem_cons, List.not_mem_nil, or_false] at hmem
      rcases hmem with rfl | rfl
      · rw [Level.rule, hmethod]; rfl
      · rw [Level.rule, hyielding]; rfl
    · rw [Level.rule, hcall]; rfl
  · obtain ⟨call, method, yielding, hcall, hmethod, hyielding, d, e, hrouted, hclose, _⟩ :=
      hroute (.throwTo .nil .nil)
    have hraised := hrouted.handed (by
      rintro level hmem _ ⟨⟩
      simp only [List.mem_cons, List.not_mem_nil, or_false] at hmem
      rcases hmem with rfl | rfl | rfl
      · rw [Level.rule, hcall]; rfl
      · rw [Level.rule, hmethod]; rfl
      · rw [Level.rule, hyielding]; rfl) e hclose
    obtain ⟨_, _, _, _, _, _, hescape⟩ := @signals_routed.2 Bare (.raising (.throwTo .nil .nil))
      Run.exhausted Context.bare e (.throwTo .nil .nil)
    exact ⟨e, hraised, hescape _ _ _ _ _ _ _ hraised⟩

end ExecutionContext
