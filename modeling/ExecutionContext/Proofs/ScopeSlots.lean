import ExecutionContext.Context.Loading
import ExecutionContext.Context.Start
import ExecutionContext.Proofs.Installation
import ExecutionContext.Proofs.Refusal

/-! # The slots of a scope

Names and values of a scope are changed by many operations, one of which replaces all
names and cuts the values or fills them up. Each leaves as many values as names, and a
scope that has any names has the special ones in front. The special slots are therefore
there whenever they are written, and no write to them meets a local of another name.
-/

namespace ExecutionContext

variable {H : Host} {ε α : Type}

namespace Scope

variable {scope : Scope} {names : List String} {name : String} {slot other : Nat} {value : Value}

/-- There are as many values as names, and the names are none or begin with the special ones. -/
structure Aligned (scope : Scope) : Prop where
  length_eq : scope.names.length = scope.values.length
  names_eq : scope.names = [] ∨ ∃ own, scope.names = specialNames ++ own

/-! ## Operations on a scope -/

inductive Edit where
  | setNames (names : List String)
  | ensureSpecial
  | set (slot : Nat) (value : Value)
  | assign (name : String) (value : Value)
  | declare (name : String) (value : Value)

def Edit.apply (scope : Scope) : Edit -> Scope
  | .setNames names => scope.setNames names
  | .ensureSpecial => scope.ensureSpecial
  | .set slot value => (scope.set slot value).2
  | .assign name value => (scope.assign name value).2
  | .declare name value => scope.declare name value

/-- A scope that is made, empty or with locals, and then changed by operations in any order. -/
inductive Built : Scope -> Prop where
  | new : Built {}
  | withLocals (names : List String) : Built (withLocals names)
  | edit {scope : Scope} (e : Edit) : Built scope -> Built (e.apply scope)

@[simp] theorem length_resize (count : Nat) (values : List Value) :
    (resize count values).length = count := by
  simp only [resize, List.length_append, List.length_take, List.length_replicate]
  omega

theorem aligned_new : ({} : Scope).Aligned :=
  ⟨rfl, Or.inl rfl⟩

theorem setNames_names (scope : Scope) (names : List String) :
    ∃ own, (scope.setNames names).names = specialNames ++ own := by
  unfold setNames
  by_cases h : specialNames.isPrefixOf names = true
  · obtain ⟨own, hown⟩ := List.isPrefixOf_iff_prefix.mp h
    refine ⟨own, ?_⟩
    rw [if_pos h, hown]
  · refine ⟨names, ?_⟩
    rw [if_neg h]

theorem aligned_setNames (scope : Scope) (names : List String) : (scope.setNames names).Aligned :=
  ⟨(length_resize _ _).symm, Or.inr (scope.setNames_names names)⟩

namespace Aligned

theorem ensureSpecial (h : scope.Aligned) : scope.ensureSpecial.Aligned := by
  unfold Scope.ensureSpecial
  split
  · exact aligned_setNames scope []
  · exact h

theorem set (h : scope.Aligned) (slot : Nat) (value : Value) : (scope.set slot value).2.Aligned where
  length_eq := by
    show scope.names.length = (scope.values.set slot value).length
    rw [List.length_set]
    exact h.length_eq
  names_eq := h.names_eq

theorem assign (h : scope.Aligned) (name : String) (value : Value) :
    (scope.assign name value).2.Aligned := by
  unfold Scope.assign
  split
  · exact h.set _ value
  · exact h

/-- A scope with its special slots begins with their names. -/
theorem names_ensureSpecial (h : scope.Aligned) :
    ∃ own, scope.ensureSpecial.names = specialNames ++ own := by
  unfold Scope.ensureSpecial
  by_cases hempty : scope.names.isEmpty = true
  · rw [if_pos hempty]
    exact scope.setNames_names []
  · rw [if_neg hempty]
    refine h.names_eq.resolve_left fun hnil => hempty ?_
    rw [hnil]
    rfl

theorem declare (h : scope.Aligned) (name : String) (value : Value) :
    (scope.declare name value).Aligned := by
  unfold Scope.declare
  have hassign := h.assign name value
  cases hresult : scope.assign name value with
  | mk found assigned =>
      rw [hresult] at hassign
      cases found with
      | true => exact hassign
      | false =>
          obtain ⟨own, hown⟩ := h.names_ensureSpecial
          constructor
          · simp only [List.length_append, h.ensureSpecial.length_eq, List.length_singleton]
          · refine Or.inr ⟨own ++ [name], ?_⟩
            simp only [hown, List.append_assoc]

theorem edit (h : scope.Aligned) (e : Edit) : (e.apply scope).Aligned := by
  cases e with
  | setNames names => exact aligned_setNames scope names
  | ensureSpecial => exact h.ensureSpecial
  | set slot value => exact h.set slot value
  | assign name value => exact h.assign name value
  | declare name value => exact h.declare name value

end Aligned

theorem aligned_withLocals (names : List String) : (withLocals names).Aligned := by
  have hfold : ∀ scope : Scope, scope.Aligned ->
      (names.foldl (fun scope name => scope.declare name .nil) scope).Aligned := by
    induction names with
    | nil => exact fun _ h => h
    | cons name names ih => exact fun _ h => ih _ (h.declare name .nil)
  exact hfold _ aligned_new.ensureSpecial

theorem Built.aligned (h : scope.Built) : scope.Aligned := by
  induction h with
  | new => exact aligned_new
  | withLocals names => exact aligned_withLocals names
  | edit e _ ih => exact ih.edit e

/-! ## Writing a special slot -/

/-- The scope with a special slot written, after it got the special slots if need be. -/
def writeSpecial (scope : Scope) (slot : Nat) (value : Value) : Scope :=
  (scope.ensureSpecial.set slot value).2

theorem ensureSpecial_of_names {own : List String} (h : scope.names = specialNames ++ own) :
    scope.ensureSpecial = scope := by
  simp [ensureSpecial, h, specialNames]

namespace Aligned

theorem eq_new (h : scope.Aligned) (hnames : scope.names = []) : scope = {} := by
  obtain ⟨names, values⟩ := scope
  have hlength : names.length = values.length := h.length_eq
  cases hnames
  rw [List.length_eq_zero_iff.mp hlength.symm]

/-- The special slots that a scope gets are nil, as if it had had them before. -/
theorem get_ensureSpecial (h : scope.Aligned) (slot : Nat) :
    scope.ensureSpecial.get slot = scope.get slot := by
  rcases h.names_eq with hnil | ⟨own, hown⟩
  · rw [h.eq_new hnil]
    match slot with
    | 0 => rfl
    | 1 => rfl
    | _ + 2 => rfl
  · rw [ensureSpecial_of_names hown]

theorem slotOf?_ensureSpecial (h : scope.Aligned) (hname : name ∉ specialNames) :
    scope.ensureSpecial.slotOf? name = scope.slotOf? name := by
  rcases h.names_eq with hnil | ⟨own, hown⟩
  · rw [h.eq_new hnil]
    have hfirst : "_" ≠ name := fun heq => hname (by simp [← heq, specialNames])
    have hsecond : "~" ≠ name := fun heq => hname (by simp [← heq, specialNames])
    simp [slotOf?, Scope.ensureSpecial, setNames, specialNames, hfirst, hsecond]
  · rw [ensureSpecial_of_names hown]

/-- Other names than the special ones stand behind their slots. -/
theorem two_le_slotOf? (h : scope.Aligned) (hname : name ∉ specialNames)
    (hslot : scope.slotOf? name = some slot) : 2 ≤ slot := by
  rcases h.names_eq with hnil | ⟨own, hown⟩
  · rw [slotOf?, hnil] at hslot
    cases hslot
  -- The search passes over both special names, and counts on from there.
  · have hspecial : specialNames.findIdx? (fun other => decide (other = name)) = none := by
      simp only [List.findIdx?_eq_none_iff, decide_eq_false_iff_not]
      exact fun other hother heq => hname (heq ▸ hother)
    rw [slotOf?, hown, List.findIdx?_append, hspecial, Option.none_or] at hslot
    obtain ⟨place, _, rfl⟩ := Option.map_eq_some_iff.mp hslot
    exact Nat.le_add_left 2 place

theorem writeSpecial (h : scope.Aligned) (slot : Nat) (value : Value) :
    (scope.writeSpecial slot value).Aligned :=
  h.ensureSpecial.set slot value

theorem get_writeSpecial_self (h : scope.Aligned) (hslot : slot < 2) (value : Value) :
    (scope.writeSpecial slot value).get slot = value := by
  obtain ⟨own, hown⟩ := h.names_ensureSpecial
  have hlength : slot < scope.ensureSpecial.values.length := by
    rw [← h.ensureSpecial.length_eq, hown, List.length_append]
    exact Nat.lt_of_lt_of_le hslot (Nat.le_add_right 2 _)
  show (scope.ensureSpecial.values.set slot value).getD slot .nil = value
  rw [List.getD_eq_getElem?_getD, List.getElem?_set_self hlength, Option.getD_some]

theorem get_writeSpecial_of_ne (h : scope.Aligned) (hne : other ≠ slot) (value : Value) :
    (scope.writeSpecial slot value).get other = scope.get other := by
  rw [← h.get_ensureSpecial other]
  show (scope.ensureSpecial.values.set slot value).getD other .nil =
    scope.ensureSpecial.values.getD other .nil
  rw [List.getD_eq_getElem?_getD, List.getElem?_set_ne hne.symm, List.getD_eq_getElem?_getD]

theorem lookup?_writeSpecial (h : scope.Aligned) (hslot : slot < 2) (value : Value)
    (hname : name ∉ specialNames) :
    (scope.writeSpecial slot value).lookup? name = scope.lookup? name := by
  have hsame : (scope.writeSpecial slot value).slotOf? name = scope.slotOf? name :=
    h.slotOf?_ensureSpecial hname
  unfold lookup?
  rw [hsame]
  cases hplace : scope.slotOf? name with
  | none => rfl
  | some place =>
      have hbehind := h.two_le_slotOf? hname hplace
      have hne : place ≠ slot := by omega
      exact congrArg some (h.get_writeSpecial_of_ne hne value)

end Aligned

end Scope

/-! ## The scopes of a context -/

/-- A context that came about by operations in any order. Scopes are pushed and popped, replaced by
others that were handed out, and changed through their handles; a parser's names are taken over, and
special slots written. All else leaves the scopes alone. -/
inductive Context.Reached : Context H -> Prop where
  | new (config : Config) (errors : ErrorStream) (host : H.State) :
      Reached (Context.new config errors host)
  | start {c : Context H} (processId : Int64) : Reached c -> Reached (c.start processId)
  | pushScope {c : Context H} {scope : Scope} :
      Reached c -> scope.Built -> Reached ((pushScope scope : Run Failure H _).after c)
  | popScope {c : Context H} : Reached c -> Reached ((popScope : Run Failure H _).after c)
  | setTopScope {c : Context H} {scope : Ref .scope} : Reached c -> c.scopeCells.Has scope ->
      Reached ((setTopScope scope : Run Failure H _).after c)
  | edit {c : Context H} {scope : Ref .scope} (e : Scope.Edit) :
      Reached c -> c.scopeCells.Has scope ->
      Reached { c with scopeCells := c.scopeCells.modify scope fun s => e.apply s }
  | compile {α : Type} {c : Context H} (parse : Parser α) :
      Reached c -> Reached ((compile parse).after c)
  | setLastLine {c : Context H} (value : Value) :
      Reached c -> Reached ((setLastLine value : Run Failure H _).after c)
  | setLastMatch {c : Context H} (value : Value) :
      Reached c -> Reached ((setLastMatch value : Run Failure H _).after c)
  | elsewhere {c d : Context H} : Reached c -> d.scopes = c.scopes -> d.scopeCells = c.scopeCells ->
      Reached d

theorem Stack.entries_of_pop {stack rest : Stack α} {entry : α}
    (h : stack.pop = .ok (entry, rest)) : stack.entries = entry :: rest.entries := by
  obtain ⟨name, live, base⟩ := stack
  cases live with
  | nil => cases h
  | cons top live =>
      cases h
      rfl

theorem Stack.mem_entries_of_setTop {stack replaced : Stack α} {entry old found : α}
    (h : stack.setTop entry = .ok (old, replaced)) (hfound : found ∈ replaced.entries) :
    found = entry ∨ found ∈ stack.entries := by
  obtain ⟨name, live, base⟩ := stack
  cases live with
  | cons top live =>
      cases h
      exact (List.mem_cons.mp hfound).imp_right (List.mem_cons_of_mem _)
  | nil =>
      cases base with
      | nil => cases h
      | cons top base =>
          cases h
          exact (List.mem_cons.mp hfound).imp_right (List.mem_cons_of_mem _)

def Context.withSpecial (c : Context H) (scope : Ref .scope) (slot : Nat) (value : Value) :
    Context H :=
  { c with scopeCells := c.scopeCells.modify scope fun s => s.writeSpecial slot value }

theorem setSpecialSlot_eq {c : Context H} {scope : Ref .scope} (h : c.scopes.top? = some scope)
    (slot : Nat) (value : Value) :
    (setSpecialSlot slot value : Run ε H Unit) c = .ok () (c.withSpecial scope slot value) := by
  rw [setSpecialSlot, modifyScope, Run.bind_of_ok (currentScope_of_top? h)]
  rfl

structure Context.ScopesAligned (c : Context H) : Prop where
  aligned : ∀ {scope}, c.scopeCells.Has scope -> (c.scopeCells.read scope).Aligned
  stacked : ∀ scope ∈ c.scopes.entries, c.scopeCells.Has scope

namespace Context.ScopesAligned

variable {c d : Context H} {ref : Ref .scope}

theorem of_eq (h : c.ScopesAligned) (hscopes : d.scopes = c.scopes)
    (hcells : d.scopeCells = c.scopeCells) : d.ScopesAligned := by
  refine ⟨fun {scope} hhas => ?_, fun scope hmem => ?_⟩
  · rw [hcells] at hhas ⊢
    exact h.aligned hhas
  · rw [hscopes] at hmem
    rw [hcells]
    exact h.stacked scope hmem

theorem alloc (h : c.ScopesAligned) {scope : Scope} (hscope : scope.Aligned)
    (hcells : d.scopeCells = (c.scopeCells.alloc scope).2)
    (hentries : d.scopes.entries = (c.scopeCells.alloc scope).1 :: c.scopes.entries) :
    d.ScopesAligned := by
  constructor
  · intro found hhas
    rw [hcells] at hhas ⊢
    rcases Arena.has_alloc_iff.mp hhas with hold | rfl
    · rw [Arena.read_alloc_of_has hold]
      exact h.aligned hold
    · rw [Arena.read_alloc_self]
      exact hscope
  · intro found hmem
    rw [hentries] at hmem
    rw [hcells]
    rcases List.mem_cons.mp hmem with rfl | hold
    · exact Arena.has_alloc _ _
    · exact (h.stacked found hold).alloc scope

theorem modify (h : c.ScopesAligned) (scope : Ref .scope) {change : Scope -> Scope}
    (hchange : ∀ {s : Scope}, s.Aligned -> (change s).Aligned) :
    Context.ScopesAligned { c with scopeCells := c.scopeCells.modify scope change } := by
  constructor
  · intro found hhas
    have hold : c.scopeCells.Has found := Arena.has_write.mp hhas
    show ((c.scopeCells.write scope (change (c.scopeCells.read scope))).read found).Aligned
    by_cases heq : scope = found
    · rw [heq, Arena.read_write_self hold]
      exact hchange (h.aligned hold)
    · rw [Arena.read_write_of_ne _ heq]
      exact h.aligned hold
  · intro found hmem
    exact Arena.has_write.mpr (h.stacked found hmem)

theorem restack (h : c.ScopesAligned) {scopes : Stack (Ref .scope)}
    (hscopes : ∀ scope ∈ scopes.entries, c.scopeCells.Has scope) :
    Context.ScopesAligned { c with scopes := scopes } :=
  ⟨h.aligned, hscopes⟩

theorem popScope (h : c.ScopesAligned) :
    ((ExecutionContext.popScope : Run Failure H _).after c).ScopesAligned := by
  simp only [Run.after, ExecutionContext.popScope, Run.bind_of_ok (Run.get_apply c)]
  cases hpop : c.scopes.pop with
  | error fault => exact h
  | ok popped =>
      refine h.restack fun scope hmem => h.stacked scope ?_
      rw [Stack.entries_of_pop hpop]
      exact List.mem_cons_of_mem _ hmem

theorem setTopScope (h : c.ScopesAligned) {scope : Ref .scope} (hscope : c.scopeCells.Has scope) :
    ((ExecutionContext.setTopScope scope : Run Failure H _).after c).ScopesAligned := by
  simp only [Run.after, ExecutionContext.setTopScope, Run.bind_of_ok (Run.get_apply c)]
  cases hset : c.scopes.setTop scope with
  | error fault => exact h
  | ok replaced =>
      refine h.restack fun found hmem => ?_
      rcases Stack.mem_entries_of_setTop hset hmem with rfl | hold
      · exact hscope
      · exact h.stacked found hold

theorem setSpecialSlot (h : c.ScopesAligned) (slot : Nat) (value : Value) :
    ((ExecutionContext.setSpecialSlot slot value : Run Failure H _).after c).ScopesAligned := by
  simp only [ExecutionContext.setSpecialSlot, modifyScope]
  rcases Run.Looks.currentScope (ε := Failure) c with ⟨scope, hscope⟩ | ⟨exit, hscope⟩
  · simp only [Run.after, Run.bind_of_ok hscope]
    exact h.modify scope fun hs => hs.writeSpecial slot value
  · rw [Run.after_of_error (Run.bind_of_error hscope)]
    exact h

theorem compile (h : c.ScopesAligned) (parse : Parser α) :
    ((ExecutionContext.compile parse).after c).ScopesAligned := by
  simp only [ExecutionContext.compile]
  rcases Run.Looks.currentScope (ε := Failure) c with ⟨scope, hscope⟩ | ⟨exit, hscope⟩
  · simp only [Run.after, Run.bind_of_ok hscope, Run.bind_of_ok (Run.get_apply c)]
    cases parse (c.scopeCells.read scope).names with
    | error failure => exact h
    | ok parsed =>
        obtain ⟨tree, names⟩ := parsed
        cases names with
        | none => exact h
        | some names => exact h.modify scope fun _ => Scope.aligned_setNames _ names
  · rw [Run.after_of_error (Run.bind_of_error hscope)]
    exact h

end Context.ScopesAligned

theorem Context.Reached.scopesAligned {c : Context H} (h : c.Reached) : c.ScopesAligned := by
  induction h with
  | new config errors host =>
      refine ⟨fun {scope} hhas => absurd hhas (Nat.not_lt_zero _), fun scope hmem => ?_⟩
      exact absurd hmem List.not_mem_nil
  | start processId _ ih =>
      unfold Context.start
      split
      · exact ih
      · exact ih.alloc (Scope.aligned_withLocals []) rfl rfl
  | pushScope _ hscope ih => exact ih.alloc hscope.aligned rfl rfl
  | popScope _ ih => exact ih.popScope
  | setTopScope _ hscope ih => exact ih.setTopScope hscope
  | edit e _ _ ih => exact ih.modify _ fun hs => hs.edit e
  | compile parse _ ih => exact ih.compile parse
  | setLastLine value _ ih => exact ih.setSpecialSlot _ value
  | setLastMatch value _ ih => exact ih.setSpecialSlot _ value
  | elsewhere _ hscopes hcells ih => exact ih.of_eq hscopes hcells

/-! ## The main result -/

theorem Context.specialSlot_eq {c : Context H} {scope : Ref .scope} (h : c.scopes.top? = some scope)
    (slot : Nat) : c.specialSlot slot = (c.scopeCells.read scope).get slot := by
  simp only [specialSlot, h]
  by_cases hvalues : (c.scopeCells.read scope).values = []
  · simp [Scope.hasValues, Scope.get, hvalues]
  · simp [Scope.hasValues, hvalues]

/-- A special slot that was written reads what was written, and the scope on top reads what it did
in all other slots and under all other names. -/
theorem setSpecialSlot_reads {c : Context H} (h : c.ScopesAligned) {scope : Ref .scope}
    (htop : c.scopes.top? = some scope) {slot : Nat} (hslot : slot < 2) (value : Value) :
    ∃ d, (setSpecialSlot slot value : Run ε H Unit) c = .ok () d ∧ d.specialSlot slot = value ∧
      (∀ other, other ≠ slot -> d.specialSlot other = c.specialSlot other) ∧
      ∀ name, name ∉ Scope.specialNames ->
        (d.scopeCells.read scope).lookup? name = (c.scopeCells.read scope).lookup? name := by
  have hhas : c.scopeCells.Has scope := by
    refine h.stacked scope (List.mem_of_mem_head? ?_)
    rw [← Stack.top?_eq_head?, htop]
    exact Option.mem_some_self scope
  have haligned := h.aligned hhas
  have hread : (c.withSpecial scope slot value).scopeCells.read scope =
      (c.scopeCells.read scope).writeSpecial slot value := Arena.read_write_self hhas _
  have htop' : (c.withSpecial scope slot value).scopes.top? = some scope := htop
  refine ⟨_, setSpecialSlot_eq htop slot value, ?_, fun other hne => ?_, fun name hname => ?_⟩
  · rw [Context.specialSlot_eq htop', hread]
    exact haligned.get_writeSpecial_self hslot value
  · rw [Context.specialSlot_eq htop', Context.specialSlot_eq htop, hread]
    exact haligned.get_writeSpecial_of_ne hne value
  · rw [hread]
    exact haligned.lookup?_writeSpecial hslot value hname

/-- A scope has as many values as names, with the special ones in front if it has any; so a special
variable reads what it was set to, and no other local changes. -/
theorem special_writes_survive {c : Context H} (h : c.Reached) :
    (∀ scope : Scope, scope.Built -> scope.Aligned) ∧
    (∀ scope, c.scopeCells.Has scope -> (c.scopeCells.read scope).Aligned) ∧
    ∀ scope, c.scopes.top? = some scope -> ∀ value,
      (∃ d, (setLastLine value : Run ε H Unit) c = .ok () d ∧
        d.lastLine = value ∧ d.lastMatch = c.lastMatch ∧
        ∀ name, name ∉ Scope.specialNames ->
          (d.scopeCells.read scope).lookup? name = (c.scopeCells.read scope).lookup? name) ∧
      ∃ d, (setLastMatch value : Run ε H Unit) c = .ok () d ∧
        d.lastMatch = value ∧ d.lastLine = c.lastLine ∧
        ∀ name, name ∉ Scope.specialNames ->
          (d.scopeCells.read scope).lookup? name = (c.scopeCells.read scope).lookup? name := by
  have haligned := h.scopesAligned
  refine ⟨fun _ hbuilt => hbuilt.aligned, fun _ hhas => haligned.aligned hhas, ?_⟩
  intro scope htop value
  have hline : Scope.lastLineSlot < 2 := by decide
  have hmatch : Scope.lastMatchSlot < 2 := by decide
  obtain ⟨d, hd, hself, hothers, hlocals⟩ := setSpecialSlot_reads haligned htop hline value
  obtain ⟨e, he, hself', hothers', hlocals'⟩ := setSpecialSlot_reads haligned htop hmatch value
  constructor
  · exact ⟨d, hd, hself, hothers Scope.lastMatchSlot (by decide), hlocals⟩
  · exact ⟨e, he, hself', hothers' Scope.lastLineSlot (by decide), hlocals'⟩

/-- A scope without locals that takes over the names of a parser, none of them special, and has one
of them assigned. -/
def Context.adopting : Context Bare :=
  let pushed := (pushScope {} : Run Failure Bare _).after .bare
  let parsed := (compile fun _ => .ok ((), some ["x", "~"])).after pushed
  { parsed with scopeCells := parsed.scopeCells.modify ⟨1⟩ fun s =>
      (Scope.Edit.assign "x" (.int 5)).apply s }

/-- The last line is set beside the local, in a slot that was put in front of it. -/
theorem special_writes_survive_adopting :
    let c := Context.adopting
    (c.scopeCells.read ⟨1⟩).names = ["_", "~", "x", "~"] ∧
    ∃ d, (setLastLine (.int 1) : Run Failure Bare Unit) c = .ok () d ∧ d.lastLine = .int 1 ∧
      d.lastMatch = .nil ∧ (d.scopeCells.read ⟨1⟩).lookup? "x" = some (.int 5) := by
  intro c
  have hreached : c.Reached := by
    have hpushed := Context.Reached.pushScope (.start 0 (.new (H := Bare) {} .silent ())) Scope.Built.new
    exact .edit _ (.compile _ hpushed) (show (1 : Nat) < _ by decide +kernel)
  obtain ⟨_, _, hwrites⟩ := special_writes_survive (ε := Failure) hreached
  obtain ⟨⟨d, hrun, hline, hmatch, hlocals⟩, _⟩ := hwrites ⟨1⟩ (by decide +kernel) (.int 1)
  have hbefore : c.lastMatch = .nil := by decide +kernel
  have hlocal : (c.scopeCells.read ⟨1⟩).lookup? "x" = some (.int 5) := by decide +kernel
  refine ⟨by decide +kernel, d, hrun, hline, hmatch.trans hbefore, ?_⟩
  rw [hlocals "x" (by decide), hlocal]

end ExecutionContext
