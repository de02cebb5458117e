import ExecutionContext.Proofs.Handles

/-! # Families of handles

Handles on chains are numbered, and each is made from an empty chain or from another
handle. Declaring through a handle moves this handle on, and no other. A write goes to
one link, and it is seen through exactly the handles whose innermost link of that name
this is; nothing else is seen to change through any handle.
-/

namespace ExecutionContext

/-- Handles on chains, by number, and the values behind the links of all of them. -/
structure Family where
  bindings : Bindings := {}
  chains : List Chain := []

inductive HandleOperation where
  -- The first three make a new handle.
  | empty
  | clone (handle : Nat)
  | activate (handle : Nat)
  | declare (handle : Nat) (name : String) (value : Value)
  | set (handle : Nat) (name : String) (value : Value)
  | assign (handle : Nat) (name : String) (value : Value)

namespace Family

def moveOn (family : Family) (handle : Nat) (made : Chain × Bindings) : Family :=
  { bindings := made.2, chains := family.chains.set handle made.1 }

/-- Perform an operation; without the handle it asks for, nothing happens. -/
def perform (family : Family) : HandleOperation -> Family
  | .empty => { family with chains := family.chains ++ [[]] }
  | .clone handle =>
      match family.chains[handle]? with
      | some chain => { family with chains := family.chains ++ [chain] }
      | none => family
  | .activate handle =>
      match family.chains[handle]? with
      | some chain =>
          let (made, bindings) := chain.activate family.bindings
          { bindings := bindings, chains := family.chains ++ [made] }
      | none => family
  | .declare handle name value =>
      match family.chains[handle]? with
      | some chain => family.moveOn handle (chain.declare family.bindings name value)
      | none => family
  | .set handle name value =>
      match family.chains[handle]? with
      | some chain => family.moveOn handle (chain.set family.bindings name value)
      | none => family
  | .assign handle name value =>
      match family.chains[handle]? with
      | some chain => { family with bindings := (chain.assign family.bindings name value).2 }
      | none => family

def made (operations : List HandleOperation) : Family :=
  operations.foldl perform {}

def read? (family : Family) (handle : Nat) (name : String) : Option Value :=
  family.chains[handle]?.bind fun chain => chain.get? family.bindings name

def link? (family : Family) (handle : Nat) (name : String) : Option (Ref .link) :=
  family.chains[handle]?.bind fun chain => chain.find? name

def names (family : Family) (handle : Nat) : List String :=
  (family.chains[handle]?.map Chain.names).getD []

variable {family : Family} {chain other : Chain} {handle : Nat} {name : String}

theorem read?_of_chain (h : family.chains[handle]? = some chain) (name : String) :
    family.read? handle name = chain.get? family.bindings name := by
  rw [read?, h, Option.bind_some]

theorem link?_of_chain (h : family.chains[handle]? = some chain) (name : String) :
    family.link? handle name = chain.find? name := by
  rw [link?, h, Option.bind_some]

theorem chains_moveOn_self (h : family.chains[handle]? = some chain) (made : Chain × Bindings) :
    (family.moveOn handle made).chains[handle]? = some made.1 :=
  List.getElem?_set_self (List.getElem?_eq_some_iff.mp h).1

theorem chains_moveOn_of_ne {kept : Nat} (hne : kept ≠ handle) (made : Chain × Bindings) :
    (family.moveOn handle made).chains[kept]? = family.chains[kept]? :=
  List.getElem?_set_ne (Ne.symm hne)

/-! ## All chains come about by the operations on chains -/

theorem held_append {bindings : Bindings} {chains : List Chain}
    (h : bindings.Held (chain :: chains)) : bindings.Held (chains ++ [chain]) :=
  h.forget fun held hmem => by
    rcases List.mem_append.mp hmem with hold | hnew
    · exact List.mem_cons_of_mem _ hold
    · exact List.mem_singleton.mp hnew ▸ List.mem_cons_self

theorem held_set {bindings : Bindings} {chains : List Chain}
    (h : bindings.Held (chain :: chains)) (handle : Nat) :
    bindings.Held (chains.set handle chain) :=
  h.forget fun held hmem => by
    rcases List.mem_or_eq_of_mem_set hmem with hold | hnew
    · exact List.mem_cons_of_mem _ hold
    · exact hnew ▸ List.mem_cons_self

theorem held_perform (h : family.bindings.Held family.chains) (operation : HandleOperation) :
    (family.perform operation).bindings.Held (family.perform operation).chains := by
  cases operation with
  | empty => exact held_append h.empty
  | clone handle =>
      simp only [perform]
      cases hchain : family.chains[handle]? with
      | none => exact h
      | some chain =>
          have hmem := List.mem_of_getElem? hchain
          exact held_append (h.forget (List.cons_subset.mpr ⟨hmem, List.Subset.refl _⟩))
  | activate handle =>
      simp only [perform]
      cases hchain : family.chains[handle]? with
      | none => exact h
      | some chain => exact held_append (h.activate (List.mem_of_getElem? hchain))
  | declare handle name value =>
      simp only [perform]
      cases hchain : family.chains[handle]? with
      | none => exact h
      | some chain => exact held_set (h.declare name value (List.mem_of_getElem? hchain)) handle
  | set handle name value =>
      simp only [perform]
      cases hchain : family.chains[handle]? with
      | none => exact h
      | some chain => exact held_set (h.set name value (List.mem_of_getElem? hchain)) handle
  | assign handle name value =>
      simp only [perform]
      cases hchain : family.chains[handle]? with
      | none => exact h
      | some chain => exact h.assign name value (List.mem_of_getElem? hchain)

theorem held_made (operations : List HandleOperation) :
    (made operations).bindings.Held (made operations).chains := by
  suffices hrun : ∀ family : Family, family.bindings.Held family.chains ->
      (operations.foldl perform family).bindings.Held (operations.foldl perform family).chains from
    hrun {} .nothing
  induction operations with
  | nil => exact fun _ h => h
  | cons operation rest ih => exact fun family h => ih _ (held_perform h operation)

/-- The links that the handles hold, each with a cell of its own. -/
theorem owns_made (operations : List HandleOperation) :
    (made operations).bindings.Owns (made operations).chains.flatten :=
  (held_made operations).owns

end Family

/-! ## What one write and one new link do to every chain -/

namespace Chain

variable {bindings : Bindings} {links : List Link} {chain : Chain} {name : String}
  {cell : Ref .link}

/-- A write to the link of a name is read through the chains on which it is the innermost link of
that name, and changes nothing else. -/
theorem get?_write_shared (h : bindings.Owns links) (hlink : ⟨some name, cell⟩ ∈ links)
    (value : Value) (other : String) :
    chain.get? (bindings.write cell value) other =
      if chain.find? other = some cell then some value else chain.get? bindings other := by
  cases hother : chain.find? other with
  | none => simp [get?_of_find?_none hother]
  | some held =>
      rw [get?_of_find? hother, get?_of_find? hother]
      by_cases hcell : held = cell
      · rw [hcell, if_pos rfl, Arena.read_write_self (h.has hlink)]
      · rw [if_neg (fun heq => hcell (Option.some.inj heq)),
          Arena.read_write_of_ne _ (Ne.symm hcell)]

/-- A link belongs to one name. -/
theorem name_of_shared (h : bindings.Owns links) (hlink : ⟨some name, cell⟩ ∈ links)
    (hchain : chain ⊆ links) {other : String} (hother : chain.find? other = some cell) :
    other = name := by
  have hsame := h.eq_of_cell (hchain (mem_of_find? hother)) hlink rfl
  exact Option.some.inj (congrArg Link.name hsame)

/-- A new link of one chain is seen through no other. -/
theorem get?_alloc_shared (h : bindings.Owns links) (hchain : chain ⊆ links) (value : Value)
    (other : String) : chain.get? (bindings.alloc value).2 other = chain.get? bindings other := by
  cases hother : chain.find? other with
  | none => rw [get?_of_find?_none hother, get?_of_find?_none hother]
  | some held =>
      rw [get?_of_find? hother, get?_of_find? hother,
        Arena.read_alloc_of_has (h.has (hchain (mem_of_find? hother)))]

theorem find?_ne_alloc (h : bindings.Owns links) (hchain : chain ⊆ links) (value : Value)
    (other : String) : chain.find? other ≠ some (bindings.alloc value).1 := fun hother =>
  Arena.not_has_alloc bindings value (h.has (hchain (mem_of_find? hother)))

/-! ## Names -/

/-- The place of the innermost link of a name; behind all links when there is none. -/
def place (chain : Chain) (name : String) : Nat :=
  List.findIdx (fun link => decide (link.name = some name)) chain

theorem place_cons (link : Link) (rest : Chain) (name : String) :
    place (link :: rest) name = if link.name = some name then 0 else place rest name + 1 := by
  rw [place, List.findIdx_cons]
  by_cases h : link.name = some name
  · simp [h]
  · simp [h, place]

/-- The visible names are listed from the inside out. -/
theorem names_ordered (chain : Chain) :
    chain.names.Pairwise fun name other => chain.place name < chain.place other := by
  induction chain with
  | nil => exact .nil
  | cons link rest ih =>
      -- Behind the first link all places are one further on.
      have hrest : ∀ {names : List String}, (∀ name ∈ names, link.name ≠ some name) ->
          names.Pairwise (fun name other => place rest name < place rest other) ->
          names.Pairwise fun name other =>
            place (link :: rest) name < place (link :: rest) other := by
        intro names hne hpairs
        refine hpairs.imp_of_mem fun hname hother hlt => ?_
        rw [place_cons, place_cons, if_neg (hne _ hname), if_neg (hne _ hother)]
        exact Nat.succ_lt_succ hlt
      cases hlink : link.name with
      | none =>
          simp only [names, hlink]
          exact hrest (fun _ _ heq => by rw [hlink] at heq; cases heq) ih
      | some bound =>
          have hne : ∀ name ∈ (names rest).filter (fun other => decide (other ≠ bound)),
              link.name ≠ some name := by
            intro name hname heq
            rw [hlink] at heq
            have hother := (List.mem_filter.mp hname).2
            exact of_decide_eq_true hother (Option.some.inj heq).symm
          simp only [names, hlink]
          refine List.pairwise_cons.mpr ⟨fun other hother => ?_, hrest hne (ih.filter _)⟩
          rw [place_cons, place_cons, if_pos hlink, if_neg (hne other hother)]
          exact Nat.succ_pos _

theorem names_nodup (chain : Chain) : chain.names.Nodup :=
  chain.names_ordered.imp fun hlt heq => absurd (heq ▸ hlt) (Nat.lt_irrefl _)

@[simp] theorem names_activate (chain : Chain) (bindings : Bindings) :
    (chain.activate bindings).1.names = chain.names := rfl

end Chain

/-! ## What an operation does to the family -/

namespace Family

/-- A value went to the link that a name now has through a handle. It is read through all
handles on which this is the innermost link of that name, and nothing else changes. -/
structure Wrote (before after : Family) (handle : Nat) (name : String) (value : Value) : Prop where
  link : ∃ cell, after.link? handle name = some cell ∧ after.read? handle name = some value ∧
    ∀ other,
      (after.read? other name = some value ↔
        after.link? other name = some cell ∨ before.read? other name = some value) ∧
      (after.link? other name ≠ some cell -> after.read? other name = before.read? other name)
  elsewhere : ∀ other spelling, spelling ≠ name ->
    after.read? other spelling = before.read? other spelling

/-- The chain of a handle and all that is read through it stayed the same. -/
structure Untouched (before after : Family) (handle : Nat) : Prop where
  chain : after.chains[handle]? = before.chains[handle]?
  read : ∀ name, after.read? handle name = before.read? handle name

variable {before after family : Family} {chain : Chain} {handle : Nat} {name : String}
  {value : Value} {cell : Ref .link}

/-- It is enough to know what every single read gives after a write. -/
theorem Wrote.of_reads (hlink : after.link? handle name = some cell)
    (hname : ∀ other, after.read? other name =
      if after.link? other name = some cell then some value else before.read? other name)
    (helse : ∀ other spelling, spelling ≠ name ->
      after.read? other spelling = before.read? other spelling) :
    Wrote before after handle name value where
  link := by
    refine ⟨cell, hlink, (hname handle).trans (if_pos hlink), fun other => ?_⟩
    by_cases hother : after.link? other name = some cell
    · have hread := (hname other).trans (if_pos hother)
      exact ⟨⟨fun _ => Or.inl hother, fun _ => hread⟩, fun hne => absurd hother hne⟩
    · have hread := (hname other).trans (if_neg hother)
      refine ⟨⟨fun h => Or.inr (hread.symm.trans h), fun h => ?_⟩, fun _ => hread⟩
      exact hread.trans (h.resolve_left hother)
  elsewhere := helse

theorem subset_links (h : family.chains[handle]? = some chain) : chain ⊆ family.chains.flatten :=
  (List.sublist_flatten_of_mem (List.mem_of_getElem? h)).subset

theorem wrote_write (howns : family.bindings.Owns family.chains.flatten)
    (h : family.chains[handle]? = some chain) (hfind : chain.find? name = some cell)
    (value : Value) :
    Wrote family { family with bindings := family.bindings.write cell value } handle name
      value := by
  have hmem := subset_links h (Chain.mem_of_find? hfind)
  have hlink : Family.link? { family with bindings := family.bindings.write cell value } handle
      name = some cell :=
    (link?_of_chain h name).trans hfind
  refine .of_reads hlink (fun other => ?_) fun other spelling hne => ?_
  · cases hother : family.chains[other]? with
    | none => simp [read?, link?, hother]
    | some held =>
        simpa [read?, link?, hother] using Chain.get?_write_shared howns hmem value name
  · cases hother : family.chains[other]? with
    | none => simp [read?, hother]
    | some held =>
        have hcell : held.find? spelling ≠ some cell := fun heq =>
          hne (Chain.name_of_shared howns hmem (subset_links hother) heq)
        have hread : held.get? (family.bindings.write cell value) spelling = _ :=
          Chain.get?_write_shared howns hmem value spelling
        simpa [read?, hother] using hread.trans (if_neg hcell)

theorem untouched_declare (howns : family.bindings.Owns family.chains.flatten)
    (chain : Chain) (name : String) (value : Value) {other : Nat} (hne : other ≠ handle) :
    Untouched family (family.moveOn handle (chain.declare family.bindings name value)) other := by
  have hchain :
      (family.moveOn handle (chain.declare family.bindings name value)).chains[other]? =
        family.chains[other]? :=
    chains_moveOn_of_ne hne _
  refine ⟨hchain, fun spelling => ?_⟩
  cases hother : family.chains[other]? with
  | none => simp [read?, hchain, hother]
  | some held =>
      rw [read?_of_chain (hchain.trans hother), read?_of_chain hother]
      exact Chain.get?_alloc_shared howns (subset_links hother) value spelling

theorem wrote_declare (howns : family.bindings.Owns family.chains.flatten)
    (h : family.chains[handle]? = some chain) (name : String) (value : Value) :
    Wrote family (family.moveOn handle (chain.declare family.bindings name value)) handle name
      value := by
  have hmoved := chains_moveOn_self h (chain.declare family.bindings name value)
  have hlink : Family.link? _ handle name = some (family.bindings.alloc value).1 :=
    (link?_of_chain hmoved name).trans ((Chain.find?_declare ..).trans (if_pos rfl))
  have hread : ∀ spelling, Family.read? _ handle spelling =
      if spelling = name then some value else chain.get? family.bindings spelling := fun spelling =>
    (read?_of_chain hmoved spelling).trans
      (Chain.get?_declare (howns.subset (subset_links h)) name value spelling)
  refine .of_reads hlink (fun other => ?_) fun other spelling hne => ?_
  · by_cases heq : other = handle
    · rw [heq, hread, if_pos rfl, if_pos hlink]
    · have huntouched := untouched_declare howns chain name value heq
      have hnew : Family.link? (family.moveOn handle (chain.declare family.bindings name value))
          other name ≠ some (family.bindings.alloc value).1 := by
        intro hsome
        rw [link?, huntouched.chain] at hsome
        obtain ⟨held, hheld, hfind⟩ := Option.bind_eq_some_iff.mp hsome
        exact Chain.find?_ne_alloc howns (subset_links hheld) value name hfind
      rw [huntouched.read, if_neg hnew]
  · by_cases heq : other = handle
    · rw [heq, hread, if_neg hne, read?_of_chain h]
    · exact (untouched_declare howns chain name value heq).read spelling

/-! ## The laws of sharing -/

section Laws

variable (howns : family.bindings.Owns family.chains.flatten)
  (h : family.chains[handle]? = some chain)

include howns h

theorem wrote_set (name : String) (value : Value) :
    Wrote family (family.perform (.set handle name value)) handle name value := by
  simp only [perform, h, Chain.set]
  cases hfind : chain.find? name with
  | some cell =>
      have hsame : family.chains.set handle chain = family.chains := by
        obtain ⟨hlt, rfl⟩ := List.getElem?_eq_some_iff.mp h
        exact List.set_getElem_self hlt
      simp only [moveOn, hsame]
      exact wrote_write howns h hfind value
  | none => exact wrote_declare howns h name value

theorem untouched_set (value : Value) (hhidden : chain.isDefined name = false) {other : Nat}
    (hne : other ≠ handle) :
    Untouched family (family.perform (.set handle name value)) other := by
  have hfind : chain.find? name = none :=
    Option.isNone_iff_eq_none.mp (Option.isSome_eq_false_iff.mp hhidden)
  simp only [perform, h, Chain.set, hfind]
  exact untouched_declare howns chain name value hne

theorem wrote_assign (value : Value) (hvisible : chain.isDefined name = true) :
    Wrote family (family.perform (.assign handle name value)) handle name value := by
  obtain ⟨cell, hfind⟩ := Option.isSome_iff_exists.mp hvisible
  simp only [perform, h, Chain.assign, hfind]
  exact wrote_write howns h hfind value

end Laws

theorem perform_assign_hidden (h : family.chains[handle]? = some chain)
    (hhidden : chain.isDefined name = false) (value : Value) :
    family.perform (.assign handle name value) = family := by
  have hfind : chain.find? name = none :=
    Option.isNone_iff_eq_none.mp (Option.isSome_eq_false_iff.mp hhidden)
  simp only [perform, h, Chain.assign, hfind]

theorem chains_assign (family : Family) (handle : Nat) (name : String) (value : Value) :
    (family.perform (.assign handle name value)).chains = family.chains := by
  cases h : family.chains[handle]? with
  | none => simp only [perform, h]
  | some chain => simp only [perform, h]

/-- A new handle on a chain, or on a mark in front of it, has the names of that chain, and each
reads the same there. -/
theorem new_handle (howns : family.bindings.Owns family.chains.flatten)
    (h : family.chains[handle]? = some chain) {operation : HandleOperation}
    (hnew : operation = .clone handle ∨ operation = .activate handle) :
    (family.perform operation).names family.chains.length = chain.names ∧
      (∀ name, (family.perform operation).read? family.chains.length name =
        family.read? handle name) ∧
      ∀ other < family.chains.length, Untouched family (family.perform operation) other := by
  have hold : ∀ (made : Chain) (other : Nat), other < family.chains.length ->
      (family.chains ++ [made])[other]? = family.chains[other]? :=
    fun made other hlt => List.getElem?_append_left hlt
  rcases hnew with rfl | rfl
  · simp only [perform, h]
    refine ⟨by simp [names], fun name => by simp [read?, h], fun other hlt => ?_⟩
    exact ⟨hold chain other hlt, fun name => by simp only [read?, hold chain other hlt]⟩
  · simp only [perform, h]
    have hsame : ∀ {held : Chain}, held ⊆ family.chains.flatten -> ∀ name,
        held.get? (chain.activate family.bindings).2 name = held.get? family.bindings name :=
      fun hheld name => Chain.get?_alloc_shared howns hheld .nil name
    refine ⟨by simp [names], fun name => ?_, fun other hlt => ⟨hold _ other hlt, fun name => ?_⟩⟩
    · rw [read?_of_chain h, ← hsame (subset_links h)]
      simp [read?, Chain.activate, Chain.extend, Chain.get?, Chain.find?]
    · simp only [read?, hold _ other hlt]
      cases hother : family.chains[other]? with
      | none => rfl
      | some held => exact hsame (subset_links hother) name

/-- What is set, assigned or declared through one handle goes to the link that the name then has
there, is read through all handles with this innermost link, and changes nothing else. -/
theorem links_shared_by_handles (operations : List HandleOperation) {family : Family}
    (hmade : made operations = family) {handle : Nat} {chain : Chain}
    (h : family.chains[handle]? = some chain) (name : String) (value : Value) :
    Wrote family (family.perform (.set handle name value)) handle name value ∧
    Wrote family (family.perform (.declare handle name value)) handle name value ∧
    (∀ other, other ≠ handle ->
      Untouched family (family.perform (.declare handle name value)) other ∧
      (chain.isDefined name = false ->
        Untouched family (family.perform (.set handle name value)) other)) ∧
    (chain.assign family.bindings name value).1 = chain.isDefined name ∧
    (family.perform (.assign handle name value)).chains = family.chains ∧
    (if chain.isDefined name then
      Wrote family (family.perform (.assign handle name value)) handle name value
    else family.perform (.assign handle name value) = family) ∧
    (∀ operation, operation = .clone handle ∨ operation = .activate handle ->
      (family.perform operation).names family.chains.length = family.names handle ∧
      (∀ spelling, (family.perform operation).read? family.chains.length spelling =
        family.read? handle spelling) ∧
      ∀ other < family.chains.length, Untouched family (family.perform operation) other) ∧
    family.names handle = chain.names ∧
    (∀ spelling, spelling ∈ chain.names ↔ chain.isDefined spelling = true) ∧
    chain.names.Nodup ∧
    chain.names.Pairwise fun inner outer => chain.place inner < chain.place outer := by
  have howns : family.bindings.Owns family.chains.flatten := hmade ▸ owns_made operations
  have hnames : family.names handle = chain.names := by
    rw [names, h, Option.map_some, Option.getD_some]
  have hdeclare : family.perform (.declare handle name value) =
      family.moveOn handle (chain.declare family.bindings name value) := by simp only [perform, h]
  refine ⟨wrote_set howns h name value, ?_, fun other hne => ⟨?_, fun hhidden => ?_⟩, ?_,
    chains_assign family handle name value, ?_, fun operation hnew => ?_, hnames,
    fun spelling => Chain.mem_names_iff_isDefined, chain.names_nodup, chain.names_ordered⟩
  · rw [hdeclare]
    exact wrote_declare howns h name value
  · rw [hdeclare]
    exact untouched_declare howns chain name value hne
  · exact untouched_set howns h value hhidden hne
  · cases hfind : chain.find? name with
    | none => simp [Chain.assign, Chain.isDefined, hfind]
    | some cell => simp [Chain.assign, Chain.isDefined, hfind]
  · cases hvisible : chain.isDefined name with
    | false => exact perform_assign_hidden h hvisible value
    | true => exact wrote_assign howns h value hvisible
  · rw [hnames]
    exact new_handle howns h hnew

/-- Three handles on one link of `x`. The third hides it in an activation, where `y` is new: it
misses what is set through the second, and the first does not. -/
theorem links_shared_by_handles_hidden :
    let family := made [.empty, .declare 0 "x" (.bool true), .clone 0, .activate 0,
      .declare 2 "x" (.bool false), .set 2 "y" .nil, .assign 2 "x" .nil]
    let after := family.perform (.set 1 "x" (.int 5))
    let link : Ref .link := ⟨0⟩
    family.chains[1]? = some [⟨some "x", link⟩] ∧
    family.read? 0 "x" = some (.bool true) ∧ family.names 2 = ["y", "x"] ∧
    after.read? 0 "x" = some (.int 5) ∧ after.read? 1 "x" = some (.int 5) ∧
    after.read? 2 "x" = family.read? 2 "x" ∧ family.read? 2 "x" = some .nil ∧
    after.read? 2 "y" = family.read? 2 "y" := by
  intro family after link
  have hchain : family.chains[1]? = some [⟨some "x", link⟩] := by decide
  obtain ⟨⟨⟨cell, hcell, hread, hothers⟩, helsewhere⟩, _⟩ :=
    links_shared_by_handles _ rfl hchain "x" (.int 5)
  have hlink : cell = link := (Option.some.inj hcell).symm
  refine ⟨hchain, by decide, by decide, (hothers 0).1.mpr (Or.inl ?_), hread, (hothers 2).2 ?_,
    by decide, helsewhere 2 "y" (by decide)⟩
  · rw [hlink]
    decide
  · rw [hlink]
    decide

end Family

end ExecutionContext
