import ExecutionContext.Proofs.Locals

/-! # Compiling against the locals in scope

Values are kept by slot and found by name, and a parser replaces all names at once. As
long as it only adds names to those that it was offered, no local changes its slot and
no value is cut off: the values of the old slots stay, and what is new reads nil. The
special slots take part in this, since a scope without any locals offers no names and
gets the special ones in front of whatever is reported.
-/

namespace ExecutionContext

variable {H : Host} {α : Type}

namespace Scope

variable {scope other : Scope} {names : List String} {name : String} {slot : Nat} {value : Value}

/-! ## Taking over more names -/

/-- Within its new length a list that is cut or filled up reads as before. -/
theorem getD_resize (count : Nat) (values : List Value) (slot : Nat) :
    (resize count values).getD slot .nil = if slot < count then values.getD slot .nil else .nil := by
  simp only [resize, List.getD_eq_getElem?_getD, List.getElem?_append, List.getElem?_take,
    List.getElem?_replicate, List.length_take]
  grind

/-- The scope with other names. Values keep their slots, and new slots are nil. -/
def renamed (scope : Scope) (names : List String) : Scope :=
  { names := names, values := resize names.length scope.values }

/-- The names of a scope as they are taken over: the special ones come first in any case. -/
def fronted (names : List String) : List String :=
  if specialNames <+: names then names else specialNames ++ names

theorem setNames_eq (scope : Scope) (names : List String) :
    scope.setNames names = scope.renamed (fronted names) := by
  simp only [setNames, List.isPrefixOf_iff_prefix]
  rfl

theorem mem_fronted : name ∈ fronted names ↔ name ∈ specialNames ∨ name ∈ names := by
  unfold fronted
  split
  · rename_i hspecial
    exact ⟨Or.inr, fun h => h.elim (hspecial.subset ·) id⟩
  · exact List.mem_append

/-- More names behind those of a scope leave every name at its slot. -/
theorem slotOf?_of_prefix (hnames : scope.names <+: other.names)
    (hslot : scope.slotOf? name = some slot) : other.slotOf? name = some slot := by
  obtain ⟨more, hmore⟩ := hnames
  rw [slotOf?, ← hmore, List.findIdx?_append]
  rw [slotOf?] at hslot
  rw [hslot, Option.some_or]

namespace Aligned

/-- A scope that takes over more names keeps its own in front. -/
theorem prefix_fronted (h : scope.Aligned) (hnames : scope.names <+: names) :
    scope.names <+: fronted names := by
  unfold fronted
  split
  · exact hnames
  · rename_i hspecial
    rcases h.names_eq with hnil | ⟨own, hown⟩
    · rw [hnil]
      exact List.nil_prefix
    · exact absurd ((List.prefix_append specialNames own).trans (hown ▸ hnames)) hspecial

/-- Behind the values of a scope there is nothing to be read but nil. -/
theorem lookup?_renamed (h : scope.Aligned) (hnames : scope.names <+: names) (name : String) :
    (scope.renamed names).lookup? name =
      (scope.lookup? name).or (if name ∈ names then some .nil else none) := by
  cases hold : scope.slotOf? name with
  | some slot =>
      have hnew : (scope.renamed names).slotOf? name = some slot := slotOf?_of_prefix hnames hold
      have hlt : slot < names.length := by
        have hlength := hnames.length_le
        have hbound := h.slot_lt hold
        rw [← h.length_eq] at hbound
        omega
      rw [lookup?, hnew, lookup?, hold]
      show some ((resize names.length scope.values).getD slot .nil) =
        some (scope.values.getD slot .nil)
      rw [getD_resize, if_pos hlt]
  | none =>
      rw [lookup?, lookup?, hold]
      cases hnew : (scope.renamed names).slotOf? name with
      | none =>
          have hmissing : name ∉ names := slotOf?_eq_none_iff.mp hnew
          rw [if_neg hmissing]
          rfl
      | some place =>
          have hplace : names[place]? = some name := getElem?_of_slotOf? hnew
          -- A slot of the old scope would carry the name there already.
          have hbehind : scope.values.length ≤ place := by
            by_contra hlt
            have hwithin : place < scope.names.length := by
              rw [h.length_eq]
              omega
            obtain ⟨more, hmore⟩ := hnames
            rw [← hmore, List.getElem?_append_left hwithin] at hplace
            exact slotOf?_eq_none_iff.mp hold (List.mem_of_getElem? hplace)
          rw [if_pos (List.mem_of_getElem? hplace)]
          show some ((resize names.length scope.values).getD place .nil) = some .nil
          rw [getD_resize, List.getD_eq_getElem?_getD, List.getElem?_eq_none hbehind]
          simp

theorem lookup?_setNames (h : scope.Aligned) (hnames : scope.names <+: names) (name : String) :
    (scope.setNames names).lookup? name =
      (scope.lookup? name).or
        (if name ∈ specialNames ∨ name ∈ names then some .nil else none) := by
  rw [setNames_eq, h.lookup?_renamed (h.prefix_fronted hnames)]
  exact congrArg _ (if_congr mem_fronted rfl rfl)

theorem prefix_ensureSpecial (h : scope.Aligned) : scope.names <+: scope.ensureSpecial.names := by
  rcases h.names_eq with hnil | ⟨own, hown⟩
  · rw [hnil]
    exact List.nil_prefix
  · have hnames : scope.ensureSpecial.names = scope.names := by
      rw [ensureSpecial_of_names hown]
    exact hnames ▸ List.prefix_rfl

theorem prefix_declare (h : scope.Aligned) (name : String) (value : Value) :
    scope.names <+: (scope.declare name value).names := by
  cases hread : scope.lookup? name with
  | some old =>
      have hnames : (scope.declare name value).names = scope.names := by
        rw [h.declare_of_some (by rw [hread]; rfl), assign_names]
      exact hnames ▸ List.prefix_rfl
  | none =>
      rw [h.declare_of_none hread]
      exact h.prefix_ensureSpecial.trans (List.prefix_append _ _)

theorem mem_declare (h : scope.Aligned) (name : String) (value : Value) :
    name ∈ (scope.declare name value).names := by
  cases hread : scope.lookup? name with
  | some old =>
      rw [h.declare_of_some (by rw [hread]; rfl), assign_names]
      by_contra hmissing
      rw [lookup?_eq_none_iff.mpr hmissing] at hread
      cases hread
  | none =>
      rw [h.declare_of_none hread]
      exact List.mem_append_right _ (List.mem_singleton_self name)

/-- A special slot is no slot of a local with another name. -/
theorem lookup?_set_special (h : scope.Aligned) (hslot : slot < 2) (hname : name ∉ specialNames)
    (value : Value) : (scope.set slot value).2.lookup? name = scope.lookup? name := by
  show (scope.slotOf? name).map (scope.set slot value).2.get = _
  rw [lookup?]
  cases hplace : scope.slotOf? name with
  | none => rfl
  | some place =>
      have hbehind := h.two_le_slotOf? hname hplace
      have hne : slot ≠ place := by omega
      show some ((scope.values.set slot value).getD place .nil) =
        some (scope.values.getD place .nil)
      rw [List.getD_eq_getElem?_getD, List.getElem?_set_ne hne, List.getD_eq_getElem?_getD]

end Aligned

end Scope

/-! ## Using the scope on top -/

/-- The scope with the names that a parser reports for it, if it reports any. -/
def Scope.parsed (scope : Scope) (parse : Parser α) : Scope :=
  match parse scope.names with
  | .ok (_, some names) => scope.setNames names
  | .ok (_, none) => scope
  | .error _ => scope

/-- What is done with the scope on top: to compile against it, to write locals by name, and to set
the special variables, also by their slots. -/
inductive ScopeUse : Type 1 where
  | compile {α : Type} (parse : Parser α)
  | named (write : Scope.Write)
  | setLastLine (value : Value)
  | setLastMatch (value : Value)
  | setSlot (slot : Fin 2) (value : Value)

namespace ScopeUse

def run : ScopeUse -> Run Failure H Unit
  | .compile parse => (fun _ => ()) <$> ExecutionContext.compile parse
  | .named write => modifyScope write.edit.apply
  | .setLastLine value => ExecutionContext.setLastLine value
  | .setLastMatch value => ExecutionContext.setLastMatch value
  | .setSlot slot value => modifyScope fun scope => (scope.set slot value).2

def effect (scope : Scope) : ScopeUse -> Scope
  | .compile parse => scope.parsed parse
  | .named write => write.edit.apply scope
  | .setLastLine value => scope.writeSpecial Scope.lastLineSlot value
  | .setLastMatch value => scope.writeSpecial Scope.lastMatchSlot value
  | .setSlot slot value => (scope.set slot value).2

/-- A parser reports, if anything, the names it was offered and more names behind them. -/
def Extending : ScopeUse -> Prop
  | .compile parse => ∀ known tree names, parse known = .ok (tree, some names) -> known <+: names
  | _ => True

def Writes (name : String) : ScopeUse -> Prop
  | .named (.declare other _) => other = name
  | .named (.assign other _) => other = name
  | _ => False

section Effects

variable {scope : Scope} {name : String} {use : ScopeUse}

/-- No use takes a name away or moves it. -/
theorem prefix_effect (h : scope.Aligned) (hextending : use.Extending) :
    scope.names <+: (use.effect scope).names := by
  cases use with
  | compile parse =>
      show scope.names <+: (scope.parsed parse).names
      unfold Scope.parsed
      split
      · rename_i tree names hparse
        rw [Scope.setNames_eq]
        exact h.prefix_fronted (hextending _ tree names hparse)
      · exact List.prefix_rfl
      · exact List.prefix_rfl
  | named write =>
      cases write with
      | declare other value => exact h.prefix_declare other value
      | assign other value =>
          have hnames : (scope.assign other value).2.names = scope.names := Scope.assign_names ..
          exact hnames ▸ List.prefix_rfl
  | setLastLine value => exact h.prefix_ensureSpecial
  | setLastMatch value => exact h.prefix_ensureSpecial
  | setSlot slot value => exact List.prefix_rfl

/-- A local that is not written reads what it did. -/
theorem lookup?_effect (h : scope.Aligned) (hextending : use.Extending)
    (hname : name ∉ Scope.specialNames) (hfound : name ∈ scope.names)
    (hkept : ¬ use.Writes name) : (use.effect scope).lookup? name = scope.lookup? name := by
  cases use with
  | compile parse =>
      show (scope.parsed parse).lookup? name = scope.lookup? name
      unfold Scope.parsed
      split
      · rename_i tree names hparse
        rw [h.lookup?_setNames (hextending _ tree names hparse)]
        cases hread : scope.lookup? name with
        | some value => rfl
        | none => exact absurd hfound (Scope.lookup?_eq_none_iff.mp hread)
      · rfl
      · rfl
  | named write =>
      rw [effect, h.lookup?_write]
      cases write with
      | declare other value =>
          have hne : name ≠ other := fun heq => hkept heq.symm
          rw [Scope.Write.update, Locals.declare_of_ne _ hne,
            Locals.withSpecials_of_not_mem _ hname]
      | assign other value =>
          have hne : name ≠ other := fun heq => hkept heq.symm
          rw [Scope.Write.update, Locals.assign]
          split
          · rw [Locals.write, Function.update_of_ne hne]
          · rfl
  | setLastLine value => exact h.lookup?_writeSpecial (by decide) value hname
  | setLastMatch value => exact h.lookup?_writeSpecial (by decide) value hname
  | setSlot slot value => exact h.lookup?_set_special slot.isLt hname value

end Effects

end ScopeUse

def Context.session (c : Context H) (uses : List ScopeUse) : Context H :=
  uses.foldl (fun c use => use.run.after c) c

structure Context.Works (c : Context H) (ref : Ref .scope) : Prop where
  top : c.scopes.top? = some ref
  has : c.scopeCells.Has ref
  aligned : (c.scopeCells.read ref).Aligned

theorem Context.Reached.works {c : Context H} {ref : Ref .scope} (h : c.Reached)
    (htop : c.scopes.top? = some ref) : c.Works ref := by
  have hhas : c.scopeCells.Has ref := by
    refine h.scopesAligned.stacked ref (List.mem_of_mem_head? ?_)
    rw [← Stack.top?_eq_head?, htop]
    exact Option.mem_some_self ref
  exact ⟨htop, hhas, h.scopesAligned.aligned hhas⟩

/-- What a parser makes of the names in scope is what compiling makes of the context. -/
theorem compile_eq {c : Context H} {ref : Ref .scope} (htop : c.scopes.top? = some ref)
    (parse : Parser α) :
    compile parse c =
      match parse (c.scopeCells.read ref).names with
      | .error failure => .error (.raised (c.attach failure)) c
      | .ok (tree, none) => .ok tree c
      | .ok (tree, some names) => .ok tree
          { c with scopeCells := c.scopeCells.modify ref fun scope => scope.setNames names } := by
  rw [compile, Run.bind_of_ok (currentScope_of_top? htop), Run.bind_of_ok (Run.get_apply c)]
  cases parse (c.scopeCells.read ref).names with
  | error failure => rfl
  | ok parsed =>
      obtain ⟨tree, names⟩ := parsed
      cases names with
      | none => rfl
      | some names => rfl

theorem modifyScope_eq {ε : Type} {c : Context H} {ref : Ref .scope}
    (htop : c.scopes.top? = some ref) (change : Scope -> Scope) :
    (modifyScope change : Run ε H Unit) c =
      .ok () { c with scopeCells := c.scopeCells.modify ref change } := by
  rw [modifyScope, Run.bind_of_ok (currentScope_of_top? htop)]
  rfl

namespace Context.Works

variable {c : Context H} {ref : Ref .scope}

theorem modify (h : c.Works ref) {change : Scope -> Scope}
    (hchange : (change (c.scopeCells.read ref)).Aligned) :
    Context.Works { c with scopeCells := c.scopeCells.modify ref change } ref ∧
    (c.scopeCells.modify ref change).read ref = change (c.scopeCells.read ref) := by
  have hread : (c.scopeCells.modify ref change).read ref = change (c.scopeCells.read ref) :=
    Arena.read_write_self h.has _
  exact ⟨⟨h.top, Arena.has_write.mpr h.has, hread ▸ hchange⟩, hread⟩

theorem compile (h : c.Works ref) (parse : Parser α) :
    ((ExecutionContext.compile parse).after c).Works ref ∧
    ((ExecutionContext.compile parse).after c).scopeCells.read ref =
      (c.scopeCells.read ref).parsed parse := by
  simp only [Run.after, compile_eq h.top parse, Scope.parsed]
  cases parse (c.scopeCells.read ref).names with
  | error failure => exact ⟨h, rfl⟩
  | ok parsed =>
      obtain ⟨tree, names⟩ := parsed
      cases names with
      | none => exact ⟨h, rfl⟩
      | some names => exact h.modify (Scope.aligned_setNames _ names)

/-- Each use does to the context what it does to the scope on top. -/
theorem use (h : c.Works ref) (use : ScopeUse) :
    (use.run.after c).Works ref ∧
    (use.run.after c).scopeCells.read ref = use.effect (c.scopeCells.read ref) := by
  cases use with
  | compile parse =>
      have hafter : (ScopeUse.compile parse).run.after c = (ExecutionContext.compile parse).after c := by
        simp only [ScopeUse.run, Run.after, Run.map_apply]
        cases ExecutionContext.compile parse c <;> rfl
      rw [hafter]
      exact h.compile parse
  | named write =>
      rw [ScopeUse.run, Run.after_of_ok (modifyScope_eq h.top _)]
      exact h.modify (h.aligned.edit write.edit)
  | setLastLine value =>
      rw [ScopeUse.run, setLastLine, Run.after_of_ok (setSpecialSlot_eq h.top _ value)]
      exact h.modify (h.aligned.writeSpecial _ value)
  | setLastMatch value =>
      rw [ScopeUse.run, setLastMatch, Run.after_of_ok (setSpecialSlot_eq h.top _ value)]
      exact h.modify (h.aligned.writeSpecial _ value)
  | setSlot slot value =>
      rw [ScopeUse.run, Run.after_of_ok (modifyScope_eq h.top _)]
      exact h.modify (h.aligned.set slot value)

theorem session (h : c.Works ref) {uses : List ScopeUse} (huses : ∀ use ∈ uses, use.Extending) :
    (c.session uses).Works ref ∧
    (c.scopeCells.read ref).names <+: ((c.session uses).scopeCells.read ref).names := by
  induction uses generalizing c with
  | nil => exact ⟨h, List.prefix_rfl⟩
  | cons use uses ih =>
      obtain ⟨hworks, hread⟩ := h.use use
      have hgrown := ScopeUse.prefix_effect h.aligned (huses use List.mem_cons_self)
      rw [← hread] at hgrown
      obtain ⟨hend, hrest⟩ := ih hworks fun other hmem => huses other (List.mem_cons_of_mem _ hmem)
      exact ⟨hend, hgrown.trans hrest⟩

theorem lookup?_session (h : c.Works ref) {uses : List ScopeUse} {name : String}
    (hname : name ∉ Scope.specialNames) (hfound : name ∈ (c.scopeCells.read ref).names)
    (huses : ∀ use ∈ uses, use.Extending ∧ ¬ use.Writes name) :
    ((c.session uses).scopeCells.read ref).lookup? name = (c.scopeCells.read ref).lookup? name := by
  induction uses generalizing c with
  | nil => rfl
  | cons use uses ih =>
      obtain ⟨hworks, hread⟩ := h.use use
      obtain ⟨hextending, hkept⟩ := huses use List.mem_cons_self
      have hstill : name ∈ ((use.run.after c).scopeCells.read ref).names := by
        rw [hread]
        exact (ScopeUse.prefix_effect h.aligned hextending).subset hfound
      have hrest := ih hworks hstill fun other hmem => huses other (List.mem_cons_of_mem _ hmem)
      show (((use.run.after c).session uses).scopeCells.read ref).lookup? name = _
      rw [hrest, hread, ScopeUse.lookup?_effect h.aligned hextending hname hfound hkept]

/-- A local reads what a use gave it, as long as no later use writes it. -/
theorem lookup?_session_cons (h : c.Works ref) {use : ScopeUse} {later : List ScopeUse} {name : String}
    {value : Value} (hname : name ∉ Scope.specialNames)
    (hgiven : (use.effect (c.scopeCells.read ref)).lookup? name = some value)
    (hlater : ∀ use ∈ later, use.Extending ∧ ¬ use.Writes name) :
    ((c.session (use :: later)).scopeCells.read ref).lookup? name = some value := by
  obtain ⟨hworks, hread⟩ := h.use use
  rw [← hread] at hgiven
  have hfound : name ∈ ((use.run.after c).scopeCells.read ref).names := by
    by_contra hmissing
    rw [Scope.lookup?_eq_none_iff.mpr hmissing] at hgiven
    cases hgiven
  exact (hworks.lookup?_session hname hfound hlater).trans hgiven

theorem mem_session_of_declare (h : c.Works ref) {earlier later : List ScopeUse} {name : String}
    {value : Value}
    (huses : ∀ use ∈ earlier ++ .named (.declare name value) :: later, use.Extending) :
    name ∈ ((c.session (earlier ++ .named (.declare name value) :: later)).scopeCells.read ref).names := by
  obtain ⟨hearlier, hlater⟩ := List.forall_mem_append.mp huses
  obtain ⟨hstart, _⟩ := h.session hearlier
  obtain ⟨hdeclared, hread⟩ := hstart.use (.named (.declare name value))
  obtain ⟨_, hrest⟩ := hdeclared.session (List.forall_mem_cons.mp hlater).2
  have hmem : name ∈ (((c.session earlier).scopeCells.read ref).declare name value).names :=
    hstart.aligned.mem_declare name value
  rw [Context.session, List.foldl_append]
  exact hrest.subset (hread ▸ hmem)

end Context.Works

namespace Scope.Aligned

variable {scope : Scope} {names : List String} {name : String} {value : Value}

theorem lookup?_declare_self (h : scope.Aligned) (hname : name ∉ Scope.specialNames) :
    (scope.declare name value).lookup? name = some value := by
  have hkept : ¬ Locals.Misplaces scope.lookup? name := fun hlost => hname hlost.1
  rw [h.lookup?_declare, Locals.declare, if_neg hkept, Locals.write, Function.update_self]

theorem lookup?_assign_self (h : scope.Aligned) (hfound : name ∈ scope.names) :
    (scope.assign name value).2.lookup? name = some value := by
  have hsome : (scope.lookup? name).isSome = true := by
    rw [Option.isSome_iff_ne_none]
    exact fun hnone => Scope.lookup?_eq_none_iff.mp hnone hfound
  rw [h.lookup?_assign, Locals.assign, if_pos hsome, Locals.write, Function.update_self]

/-- What a parser adds to the names in scope reads nil. -/
theorem lookup?_setNames_new (h : scope.Aligned) (hextends : scope.names <+: names)
    (hmem : name ∈ names) (hnew : name ∉ scope.names) :
    (scope.setNames names).lookup? name = some .nil := by
  rw [h.lookup?_setNames hextends, Scope.lookup?_eq_none_iff.mpr hnew, Option.none_or,
    if_pos (Or.inr hmem)]

theorem names_setNames (h : scope.Aligned) (hextends : scope.names <+: names)
    (hlocals : scope.names ≠ []) : (scope.setNames names).names = names := by
  rw [Scope.setNames_eq]
  obtain ⟨own, hown⟩ := h.names_eq.resolve_left hlocals
  have hspecial : Scope.specialNames <+: names :=
    (List.prefix_append Scope.specialNames own).trans (hown ▸ hextends)
  exact if_pos hspecial

/-- Without locals in scope, the names that a parser reports come to lie behind the special ones. -/
theorem setNames_of_nil (h : scope.Aligned) (hnil : scope.names = []) (hmem : name ∈ names) :
    (scope.setNames names).lookup? name = some .nil ∧
      (name ∉ Scope.specialNames ->
        ∃ slot, (scope.setNames names).slotOf? name = some slot ∧ 2 ≤ slot) := by
  have hread := h.lookup?_setNames_new (hnil ▸ List.nil_prefix) hmem (hnil ▸ List.not_mem_nil)
  obtain ⟨slot, hslot, _⟩ := Option.map_eq_some_iff.mp hread
  exact ⟨hread, fun hname =>
    ⟨slot, hslot, (Scope.aligned_setNames scope names).two_le_slotOf? hname hslot⟩⟩

end Scope.Aligned

/-! ## The main result -/

/-- A parser is offered the names in scope, slot by slot, and one that only adds to them disturbs
no local: every local reads what it was given last, by a write or, as nil, by a parser. -/
theorem compilation_keeps_locals {c : Context H} (h : c.Reached) {ref : Ref .scope}
    (htop : c.scopes.top? = some ref) {before : List ScopeUse}
    (hbefore : ∀ use ∈ before, use.Extending) :
    let d := c.session before
    let scope := d.scopeCells.read ref
    let afterwards := fun uses name => ((d.session uses).scopeCells.read ref).lookup? name
    (d.scopes.top? = some ref ∧ scope.Aligned ∧ (c.scopeCells.read ref).names <+: scope.names ∧
      ∀ name value earlier later, before = earlier ++ .named (.declare name value) :: later ->
        name ∈ scope.names) ∧
    (∀ {α : Type} (parse : Parser α), compile parse d =
      match parse scope.names with
      | .error failure => .error (.raised (d.attach failure)) d
      | .ok (tree, none) => .ok tree d
      | .ok (tree, some names) => .ok tree
          { d with scopeCells := d.scopeCells.modify ref fun scope => scope.setNames names }) ∧
    (∀ name, name ∉ Scope.specialNames ->
      ∀ later : List ScopeUse, (∀ use ∈ later, use.Extending ∧ ¬ use.Writes name) ->
        (name ∈ scope.names -> afterwards later name = scope.lookup? name) ∧
        (∀ value, afterwards (.named (.declare name value) :: later) name = some value) ∧
        (∀ value, name ∈ scope.names ->
          afterwards (.named (.assign name value) :: later) name = some value) ∧
        ∀ {α : Type} (parse : Parser α) tree names, parse scope.names = .ok (tree, some names) ->
          scope.names <+: names -> name ∈ names -> name ∉ scope.names ->
          afterwards (.compile parse :: later) name = some .nil) ∧
    (∀ names, scope.names <+: names -> scope.names ≠ [] -> (scope.setNames names).names = names) ∧
    (∀ names, scope.names = [] ->
      (scope.setNames names).names =
        (if Scope.specialNames <+: names then names else Scope.specialNames ++ names) ∧
      ∀ name ∈ names, (scope.setNames names).lookup? name = some .nil ∧
        (name ∉ Scope.specialNames ->
          ∃ slot, (scope.setNames names).slotOf? name = some slot ∧ 2 ≤ slot)) := by
  intro d scope afterwards
  obtain ⟨hworks, hgrown⟩ := (h.works htop).session hbefore
  have haligned : scope.Aligned := hworks.aligned
  refine ⟨⟨hworks.top, haligned, hgrown, ?_⟩, fun parse => compile_eq hworks.top parse, ?_,
    fun names => haligned.names_setNames,
    fun names hnil => ⟨by rw [Scope.setNames_eq]; rfl, fun name => haligned.setNames_of_nil hnil⟩⟩
  · rintro name value earlier later rfl
    exact (h.works htop).mem_session_of_declare hbefore
  · intro name hname later hlater
    have hgiven : ∀ {use : ScopeUse} {value}, (use.effect scope).lookup? name = some value ->
        afterwards (use :: later) name = some value :=
      fun hgiven => hworks.lookup?_session_cons hname hgiven hlater
    refine ⟨fun hfound => hworks.lookup?_session hname hfound hlater,
      fun value => hgiven (haligned.lookup?_declare_self hname),
      fun value hfound => hgiven (haligned.lookup?_assign_self hfound),
      fun parse tree names hparse hextends hmem hnew => hgiven ?_⟩
    show (scope.parsed parse).lookup? name = some .nil
    rw [Scope.parsed, hparse]
    exact haligned.lookup?_setNames_new hextends hmem hnew

def introducing (name : String) : Parser (List String) := fun known =>
  .ok (known, some (known ++ [name]))

/-- Writes between two compilations, in a scope that has no locals at first. -/
def usesBetween : List ScopeUse :=
  [.compile (introducing "x"), .named (.declare "y" (.int 1)), .setLastLine (.int 7),
    .named (.assign "x" (.int 5))]

/-- The second parser is offered what the first one introduced and what was declared since, and the
local keeps its value across a compilation and a write to a special slot. -/
theorem compilation_keeps_locals_between :
    let c : Context Bare := (pushScope {} : Run Failure Bare _).after .bare
    let d := c.session usesBetween
    c.Reached ∧ c.scopes.top? = some ⟨1⟩ ∧ (c.scopeCells.read ⟨1⟩).names = [] ∧
    (∃ e, compile (introducing "z") d = .ok ["_", "~", "x", "y"] e) ∧
    ((d.session [.compile (introducing "z"), .setSlot 1 (.int 9)]).scopeCells.read ⟨1⟩).lookup? "x" =
      some (.int 5) ∧
    ((d.session [.compile (introducing "z"), .setSlot 1 (.int 9)]).scopeCells.read ⟨1⟩).lookup? "z" =
      some .nil := by
  intro c d
  have hreached : c.Reached := .pushScope (.start 0 (.new (H := Bare) {} .silent ())) Scope.Built.new
  have htop : c.scopes.top? = some ⟨1⟩ := by decide +kernel
  have hextending : ∀ name, (ScopeUse.compile (introducing name)).Extending := by
    intro name known tree names hparse
    cases hparse
    exact List.prefix_append known [name]
  have hbefore : ∀ use ∈ usesBetween, use.Extending := by
    simp only [usesBetween, List.forall_mem_cons]
    exact ⟨hextending "x", trivial, trivial, trivial, nofun⟩
  obtain ⟨_, hoffered, hlocals, _, _⟩ := compilation_keeps_locals hreached htop hbefore
  have hnames : (d.scopeCells.read ⟨1⟩).names = ["_", "~", "x", "y"] := by decide +kernel
  have hvalue : (d.scopeCells.read ⟨1⟩).lookup? "x" = some (.int 5) := by decide +kernel
  have hlater : ∀ name, ∀ use ∈ [ScopeUse.setSlot 1 (.int 9)],
      use.Extending ∧ ¬ use.Writes name := by
    intro name use hmem
    cases List.mem_singleton.mp hmem
    exact ⟨trivial, id⟩
  refine ⟨hreached, htop, by decide +kernel, ?_, ?_, ?_⟩
  · have hrun := hoffered (introducing "z")
    rw [show (c.session usesBetween) = d from rfl, hnames] at hrun
    exact ⟨_, hrun⟩
  · refine ((hlocals "x" (by decide) _ ?_).1 (hnames ▸ (by decide))).trans hvalue
    exact List.forall_mem_cons.mpr ⟨⟨hextending "z", id⟩, hlater "x"⟩
  · refine (hlocals "z" (by decide) _ (hlater "z")).2.2.2 (introducing "z") _ _ rfl
      (List.prefix_append _ _) ?_ ?_
    · exact List.mem_append_right _ (List.mem_singleton_self "z")
    · exact hnames ▸ (by decide)

end ExecutionContext
