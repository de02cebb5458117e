import ExecutionContext.Proofs.Composition

/-! # The safe level only rises

In every context a name that leads to the safe level reads and writes it under one law,
which is that of the setter. Along a composed run the level never falls and never leaves
its range, so that what it forbids once, it forbids from then on.
-/

namespace ExecutionContext

variable {H : Host} {ε α : Type}

/-! ## The law of one context -/

/-- The operation is refused in the context, and changes nothing there. -/
def Run.Refused (run : Run ε H α) (c : Context H) : Prop :=
  ∃ exit, run c = .error exit c

/-- What reading and writing through a name does when the name stands for the safe level. -/
structure Context.SafeLevelLaw (c : Context H) (name : String) : Prop where
  read : (globalGet name : Run Failure H Value) c = .ok (.int (Int64.ofNat c.safeLevel)) c
  shown : (Int64.ofNat c.safeLevel).toInt = c.safeLevel
  -- Exactly the integers not below the level are taken, and count as the highest level at most.
  raised : ∀ requested : Int64, (c.safeLevel : Int) ≤ requested.toInt ->
    globalSet name (.int requested) c =
      .ok (.int requested) { c with safeLevel := min requested.toInt.toNat maxSafeLevel }
  lowered : ∀ requested : Int64, requested.toInt < c.safeLevel ->
    globalSet name (.int requested) c = .error
      (.raised (c.attach { cause := .safeLevelLowered c.safeLevel requested.toInt })) c
  mistyped : ∀ value, (∀ requested, value ≠ .int requested) ->
    globalSet name value c =
      .error (.raised (c.attach { cause := .safeLevelType value.typeName })) c
  -- The setter, which takes levels of one byte, ends alike and has the same effect.
  setter : ∀ level, level ≤ 255 ->
    globalSet name (.int (Int64.ofNat level)) c = (do
      setSafeLevel level
      return .int (Int64.ofNat level) : Run Failure H Value) c

theorem toInt_ofNat_level {level : Nat} (h : level ≤ 255) : (Int64.ofNat level).toInt = level :=
  Int64.toInt_ofNat_of_lt (by omega)

theorem secure_refused_iff (c : Context H) (level : Nat) :
    (secure level).Refused c ↔ level ≤ c.safeLevel := by
  constructor
  · rintro ⟨exit, hr⟩
    by_cases hlevel : level ≤ c.safeLevel
    · exact hlevel
    · simp only [secure, Run.bind_apply, Run.get_apply, if_neg hlevel] at hr
      cases hr
  · intro hlevel
    obtain ⟨operation, hr⟩ := secure_refused hlevel
    exact ⟨_, hr⟩

theorem aliasGlobal_refused_iff (c : Context H) (old new : String) :
    (aliasGlobal old new).Refused c ↔ maxSafeLevel ≤ c.safeLevel := by
  constructor
  · rintro ⟨exit, hr⟩
    by_cases hlevel : maxSafeLevel ≤ c.safeLevel
    · exact hlevel
    · simp only [aliasGlobal, Run.bind_apply, Run.get_apply, if_neg hlevel] at hr
      cases hr
  · intro hlevel
    exact ⟨_, aliasGlobal_refused hlevel old new⟩

/-- A requested level that is not below the present one is taken over. -/
theorem writeSafeLevel_of_le {c : Context H} (hc : c.safeLevel ≤ maxSafeLevel) {requested : Int64}
    (h : (c.safeLevel : Int) ≤ requested.toInt) :
    writeSpecial .safeLevel (.int requested) c =
      .ok () { c with safeLevel := min requested.toInt.toNat maxSafeLevel } := by
  have hlow : ¬ requested.toInt < c.safeLevel := by omega
  simp only [writeSpecial, Run.bind_apply, Run.get_apply, if_neg hlow]
  by_cases hbyte : requested.toInt ≤ 255
  · rw [if_pos hbyte]
    exact setSafeLevel_of_le (by omega)
  · rw [if_neg hbyte, setSafeLevel_of_le hc]
    have hmin : min requested.toInt.toNat maxSafeLevel = maxSafeLevel := by
      unfold maxSafeLevel
      omega
    rw [hmin, Nat.min_self]

theorem Context.safeLevelLaw {c : Context H} (hc : c.safeLevel ≤ maxSafeLevel)
    {name original : String} (h : c.globals.LeadsTo name (.special original .safeLevel)) :
    c.SafeLevelLaw name where
  read := by
    simp only [globalGet, Run.bind_apply, Run.get_apply, h.get_eq, Run.set_apply]
    rfl
  shown := by
    have hbyte : c.safeLevel ≤ 255 := Nat.le_trans hc (by decide)
    exact toInt_ofNat_level hbyte
  raised requested hle := by
    rw [globalSet_safeLevel h]
    exact Run.bind_of_ok (writeSafeLevel_of_le hc hle)
  lowered requested hlt := by
    rw [globalSet_safeLevel h]
    exact Run.bind_of_error (writeSafeLevel_lowered hlt)
  mistyped value htype := by
    rw [globalSet_safeLevel h]
    exact Run.bind_of_error (writeSafeLevel_type htype)
  setter level hbyte := by
    have hint := toInt_ofNat_level hbyte
    rw [globalSet_safeLevel h]
    by_cases hlow : level < c.safeLevel
    · have hrequested : (Int64.ofNat level).toInt < c.safeLevel := by omega
      rw [Run.bind_of_error (writeSafeLevel_lowered hrequested),
        Run.bind_of_error (setSafeLevel_refused hlow), hint]
    · have hle := Nat.not_lt.mp hlow
      have hrequested : (c.safeLevel : Int) ≤ (Int64.ofNat level).toInt := by omega
      rw [Run.bind_of_ok (writeSafeLevel_of_le hc hrequested),
        Run.bind_of_ok (setSafeLevel_of_le hle), hint, Int.toNat_natCast]

/-! ## The levels of a run -/

section Levels

variable {β σ : Type}

/-- The level lies in its range and was nowhere higher before, and no point noted is forgotten. -/
def Contract.climbing : Contract (Recorded β σ) where
  Holds c := c.safeLevel ≤ maxSafeLevel ∧ c.scenes.Pairwise fun p q => p.safeLevel ≤ q.safeLevel
  Links c d := c.host.points <+: d.host.points
  Faults _ := True
  refl c := List.prefix_refl c.host.points
  trans h₁ h₂ := h₁.trans h₂

theorem Context.pairwise_scenes_iff {c : Context (Recorded β σ)} :
    (c.scenes.Pairwise fun p q => p.safeLevel ≤ q.safeLevel) ↔
      (c.host.points.Pairwise fun p q => p.scene.safeLevel ≤ q.scene.safeLevel) ∧
        ∀ point ∈ c.host.points, point.scene.safeLevel ≤ c.safeLevel := by
  simp [Context.scenes, List.pairwise_append, List.pairwise_map, Context.plain]

/-- A step that notes nothing may raise the level. -/
theorem Contract.climbing_of_raised {c d : Context (Recorded β σ)} (hc : climbing.Holds c)
    (hlevel : c.safeLevel ≤ d.safeLevel) (hbound : d.safeLevel ≤ maxSafeLevel)
    (hpoints : d.host.points = c.host.points) : climbing.Holds d ∧ climbing.Links c d := by
  obtain ⟨hbefore, hbelow⟩ := Context.pairwise_scenes_iff.mp hc.2
  have hkept : c.host.points <+: d.host.points := ⟨[], by rw [List.append_nil, hpoints]⟩
  refine ⟨⟨hbound, Context.pairwise_scenes_iff.mpr ?_⟩, hkept⟩
  rw [hpoints]
  exact ⟨hbefore, fun point hp => Nat.le_trans (hbelow point hp) hlevel⟩

theorem climbing_tolerant : (Contract.climbing : Contract (Recorded β σ)).Tolerant := by
  intro ε α run hrun c hc
  have hstep := hrun.step c
  obtain ⟨hlevel, hbound⟩ := hstep.level hc.1
  refine Contract.Allows.of_after (fun _ => trivial) ?_
  exact Contract.climbing_of_raised hc hlevel hbound (congrArg Journal.points hstep.host)

theorem notePoint_climbing :
    (Journal.notePoint none : Run ε (Recorded β σ) Unit).Keeps Contract.climbing := by
  intro c hc
  obtain ⟨hbefore, hbelow⟩ := Context.pairwise_scenes_iff.mp hc.2
  refine ⟨⟨hc.1, Context.pairwise_scenes_iff.mpr ⟨?_, ?_⟩⟩, List.prefix_append _ _⟩
  · refine List.pairwise_append.mpr ⟨hbefore, List.pairwise_singleton _ _, ?_⟩
    intro point hp new hnew
    rw [List.mem_singleton.mp hnew]
    exact hbelow point hp
  · intro point hp
    rcases List.mem_append.mp hp with hold | hnew
    · exact hbelow point hold
    · rw [List.mem_singleton.mp hnew]
      exact Nat.le_refl _

theorem remember_climbing (change : Context (Recorded β σ) -> σ) :
    (modify fun c => { c with host := { c.host with own := change c } } :
      Run ε (Recorded β σ) Unit).Keeps Contract.climbing :=
  fun _ hc => Contract.climbing_of_raised hc (Nat.le_refl _) hc.1 rfl

/-- What one context refuses for its safe level, the other refuses as well. -/
structure Context.NotAbove (p q : Context H) : Prop where
  level : p.safeLevel ≤ q.safeLevel
  secure : ∀ level, (secure level).Refused p -> (secure level).Refused q
  aliasGlobal : ∀ old new old' new',
    (aliasGlobal old new).Refused p -> (aliasGlobal old' new').Refused q

theorem Context.notAbove_of_le {p q : Context H} (h : p.safeLevel ≤ q.safeLevel) :
    p.NotAbove q where
  level := h
  secure level hp := by
    have hlevel := (secure_refused_iff p level).mp hp
    exact (secure_refused_iff q level).mpr (Nat.le_trans hlevel h)
  aliasGlobal old new old' new' hp := by
    have hlevel := (aliasGlobal_refused_iff p old new).mp hp
    exact (aliasGlobal_refused_iff q old' new').mpr (Nat.le_trans hlevel h)

theorem Composed.climbs {run : Run ε (Recorded β σ) α} (hrun : Composed run) :
    run.Keeps Contract.climbing :=
  hrun.keeps climbing_tolerant notePoint_climbing remember_climbing

/-- The safe level starts as configured, within its range, and never falls in any run; each name
that leads to it reads and writes it under its law. -/
theorem safe_level_rises (config : Config) (errors : ErrorStream) (own : σ)
    {run : Run ε (Recorded β σ) α} (hrun : Composed run) :
    let initial (config : Config) : Context (Recorded β σ) := .new config errors { own := own }
    let scenes := run.scenes (initial config)
    ((initial config).safeLevel = min config.safeLevel maxSafeLevel ∧
      ∀ level, (initial (config.withSafeLevel level)).safeLevel = min level maxSafeLevel) ∧
    scenes.head? = some (initial config).plain ∧
    scenes.Pairwise Context.NotAbove ∧
    ∀ scene ∈ scenes, scene.safeLevel ≤ maxSafeLevel ∧
      ∀ name original, scene.globals.LeadsTo name (.special original .safeLevel) ->
        scene.SafeLevelLaw name := by
  intro initial scenes
  have hinitial : Contract.climbing.Holds (initial config) :=
    ⟨Nat.min_le_right _ _, List.pairwise_singleton _ _⟩
  have hnote : (Journal.notePoint none : Run ε (Recorded β σ) Unit).Keeps Contract.climbing :=
    notePoint_climbing
  have hnoted := (hnote (initial config) hinitial).1
  obtain ⟨⟨hbound, hclimb⟩, ⟨later, hlater⟩⟩ := (hrun.climbs _ hnoted).after
  have hrange : ∀ scene ∈ scenes, scene.safeLevel ≤ maxSafeLevel := by
    intro scene hs
    rcases List.mem_append.mp hs with hpoint | hlast
    · obtain ⟨point, hp, rfl⟩ := List.mem_map.mp hpoint
      exact Nat.le_trans ((Context.pairwise_scenes_iff.mp hclimb).2 point hp) hbound
    · rw [List.mem_singleton.mp hlast]
      exact hbound
  refine ⟨⟨rfl, fun level => ?_⟩, ?_, hclimb.imp Context.notAbove_of_le, fun scene hs => ?_⟩
  · have hmin : min (min level maxSafeLevel) maxSafeLevel = min level maxSafeLevel :=
      Nat.min_eq_left (Nat.min_le_right _ _)
    exact hmin
  · have hfirst : scenes = (initial config).plain :: (later.map Point.scene ++ [_]) :=
      congrArg (fun points => points.map Point.scene ++ [_]) hlater.symm
    rw [hfirst]
    rfl
  · exact ⟨hrange scene hs, fun name original h => Context.safeLevelLaw (hrange scene hs) h⟩

end Levels

/-- Two names of the safe level, one of which raises it; a write below it through the other one
is rescued, and one beyond the range of a byte ends the run. -/
def raising : Run Failure (Recorded Empty Unit) Value := do
  modify fun c => c.start 7
  aliasGlobal "$SAFE" "$LEVEL"
  let _ ← globalSet "$LEVEL" (.int 2)
  Journal.notePoint none
  let _ ← (globalSet "$SAFE" (.int 0)).recover fun _ => return .nil
  globalSet "$LEVEL" (.int Int64.maxValue)

theorem raising_composed : Composed raising := by
  refine .andThen (.operation (.start 7)) fun _ => ?_
  refine .andThen (.operation (.aliasGlobal _ _)) fun _ => ?_
  refine .andThen (.operation (.globalSet _ _)) fun _ => .andThen .note fun _ => ?_
  refine .andThen (.rescue (.operation (.globalSet _ _)) fun _ => .answer _) fun _ => ?_
  exact .operation (.globalSet _ _)

/-- The level is raised twice, each time through the alias, and both names are under its law. -/
theorem safe_level_raised :
    let initial : Context (Recorded Empty Unit) := .new { safeLevel := 1 } .silent { own := () }
    Composed raising ∧ (raising.scenes initial).map Context.safeLevel = [1, 2, 4] ∧
    (raising.scenes initial).Pairwise Context.NotAbove ∧
    ∃ last, (raising.scenes initial).getLast? = some last ∧
      last.SafeLevelLaw "$SAFE" ∧ last.SafeLevelLaw "$LEVEL" := by
  intro initial
  obtain ⟨_, _, hclimb, hscenes⟩ := safe_level_rises { safeLevel := 1 } .silent () raising_composed
  let last := (Run.after (Journal.notePoint none >>= fun _ => raising) initial).plain
  have hlaw := (hscenes last (List.mem_append_right _ (List.mem_singleton_self _))).2
  have hsafe : last.globals.LeadsTo "$SAFE" (.special "$SAFE" .safeLevel) := by decide +kernel
  have halias : last.globals.LeadsTo "$LEVEL" (.special "$SAFE" .safeLevel) := by decide +kernel
  refine ⟨raising_composed, by decide +kernel, hclimb, last, List.getLast?_concat, ?_, ?_⟩
  · exact hlaw "$SAFE" "$SAFE" hsafe
  · exact hlaw "$LEVEL" "$SAFE" halias

end ExecutionContext
