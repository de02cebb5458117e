import ExecutionContext.Proofs.Sharing

/-! # What follows for aliases

Every chain of links ends, after no more links than there were operations; a write
is seen through exactly the names that share the location written; and the names
of a table are listed once each, in order.
-/

namespace ExecutionContext

/-! ## The length of a chain -/

/-- Each name is bound once, and no variable is more than that many links away from its root. -/
structure Session.Sound (s : Session) (bound : Nat) : Prop where
  distinct : s.globals.table.keys.Nodup
  table : ∀ name var, s.globals.lookup? name = some var -> var.links ≤ bound
  held : ∀ var ∈ s.held, var.links ≤ bound

namespace Session.Sound

variable {s : Session} {bound : Nat}

theorem empty : Sound {} 0 where
  distinct := List.nodup_nil
  table := by intro name var hlookup; cases hlookup
  held := by intro var hmem; cases hmem

theorem succ (h : s.Sound bound) : s.Sound (bound + 1) where
  distinct := h.distinct
  table name var hlookup := Nat.le_succ_of_le (h.table name var hlookup)
  held var hmem := Nat.le_succ_of_le (h.held var hmem)

theorem define (h : s.Sound bound) {var : Variable} (hvar : var.links ≤ bound) :
    Sound { s with globals := s.globals.define var } bound where
  distinct := Table.nodup_keys_insert h.distinct var.name var
  table name found hlookup := by
    have hget := s.globals.table.get?_insert var.name name var
    rw [show (s.globals.table.insert var.name var).get? name = some found from hlookup] at hget
    by_cases hname : var.name = name
    · simp only [hname, if_true, Option.some.injEq] at hget
      rw [hget]
      exact hvar
    · simp only [hname, if_false] at hget
      exact h.table name found hget.symm
  held := h.held

theorem hold (h : s.Sound bound) {var : Variable} (hvar : var.links ≤ bound) :
    (s.hold var).Sound bound where
  distinct := h.distinct
  table := h.table
  held other hmem := by
    rcases List.mem_append.mp hmem with hmem | hmem
    · exact h.held other hmem
    · rw [List.mem_singleton.mp hmem]
      exact hvar

theorem withCells (h : s.Sound bound) (cells : GlobalCells) :
    Sound { s with globals := { s.globals with cells := cells } } bound :=
  ⟨h.distinct, h.table, h.held⟩

theorem undefine (h : s.Sound bound) (name : String) :
    Sound { s with globals := (s.globals.undefine name).2 } bound where
  distinct := Table.nodup_keys_erase h.distinct name
  table other var hlookup := by
    have hget := s.globals.table.get?_erase name other
    rw [show (s.globals.table.erase name).get? other = some var from hlookup] at hget
    by_cases hname : name = other
    · simp [hname] at hget
    · simp only [hname, if_false] at hget
      exact h.table other var hget.symm
  held := h.held

theorem entry (h : s.Sound bound) (name : String) :
    Sound { s with globals := (s.globals.entry name).2 } bound ∧
      (s.globals.entry name).1.links ≤ bound := by
  unfold Globals.entry
  cases hlookup : s.globals.lookup? name with
  | some var => exact ⟨h, h.table name var hlookup⟩
  | none =>
      have hvar : (Variable.plain name (s.globals.cells.alloc .nil).1).links ≤ bound :=
        Nat.zero_le bound
      exact ⟨(h.withCells _).define hvar, hvar⟩

/-- A variable that is made is one link further away than the variable it links to. -/
theorem make (h : s.Sound bound) {name : String} {definition : VariableDefinition}
    {var : Variable} {t : Session} (hmake : s.make name definition = some (var, t)) :
    t.Sound bound ∧ var.links ≤ bound + 1 := by
  cases definition with
  | plain value =>
      cases hmake
      exact ⟨h.withCells _, Nat.zero_le _⟩
  | readOnly value =>
      cases hmake
      exact ⟨h, Nat.zero_le _⟩
  | special kind =>
      cases hmake
      exact ⟨h, Nat.zero_le _⟩
  | link handle =>
      simp only [Session.make] at hmake
      cases hheld : s.held[handle]? with
      | none => simp [hheld] at hmake
      | some target =>
          rw [hheld] at hmake
          cases hmake
          exact ⟨h, Nat.succ_le_succ (h.held target (List.mem_of_getElem? hheld))⟩

theorem perform (h : s.Sound bound) (operation : GlobalOperation) :
    (s.perform operation).2.Sound (bound + 1) := by
  cases operation with
  | make name definition =>
      simp only [Session.perform]
      cases hmake : s.make name definition with
      | none => exact h.succ
      | some made => exact (h.make hmake).1.succ.hold (h.make hmake).2
  | define name definition =>
      simp only [Session.perform]
      cases hmake : s.make name definition with
      | none => exact h.succ
      | some made =>
          obtain ⟨hsound, hvar⟩ := h.make hmake
          exact (hsound.succ.define hvar).hold hvar
  | lookup name =>
      simp only [Session.perform]
      cases hlookup : s.globals.lookup? name with
      | none => exact h.succ
      | some var => exact h.succ.hold (h.succ.table name var hlookup)
  | get name => exact (h.entry name).1.succ
  | set name value =>
      have hentry := (h.entry name).1.succ
      simp only [Session.perform, Globals.set]
      cases (s.globals.entry name).1.write (s.globals.entry name).2.cells value with
      | ok written => exact hentry.withCells written.2
      | error failure => exact h.succ
  | addAlias old new =>
      obtain ⟨hentry, hvar⟩ := h.entry old
      exact hentry.succ.define (Nat.succ_le_succ hvar)
  | undefine name => exact (h.undefine name).succ
  | isDefined name => exact h.succ
  | names => exact h.succ
  | size => exact h.succ
  | read handle =>
      simp only [Session.perform]
      cases s.held[handle]? with
      | none => exact h.succ
      | some var => exact h.succ
  | write handle value =>
      simp only [Session.perform]
      cases s.held[handle]? with
      | none => exact h.succ
      | some var =>
          dsimp only
          cases var.write s.globals.cells value with
          | ok written => exact h.succ.withCells written.2
          | error failure => exact h.succ

theorem performAll (h : s.Sound bound) (operations : List GlobalOperation) :
    (performAll Session.perform s operations).2.Sound (bound + operations.length) := by
  induction operations generalizing s bound with
  | nil => exact h
  | cons operation rest ih =>
      rw [List.length_cons, Nat.add_comm rest.length, ← Nat.add_assoc]
      exact ih (h.perform operation)

end Session.Sound

/-! ## The names that see a write -/

namespace Flat

variable {f : Flat}

def seen (f : Flat) (name : String) : GlobalRead :=
  match f.table.get? name with
  | some place => (f.locations.read place).read
  | none => .value .nil

def Settled (f : Flat) : Prop :=
  ∀ name place, f.table.get? name = some place -> f.locations.Has place

theorem entry_of_none {name : String} (hname : f.table.get? name = none) (other : String) :
    (f.entry name).2.table.get? other =
      if name = other then some (f.entry name).1 else f.table.get? other := by
  simp only [entry, hname]
  exact f.table.get?_insert name other _

theorem entry_of_some {name : String} {place : Ref .global}
    (hname : f.table.get? name = some place) : f.entry name = (place, f) := by
  simp only [entry, hname]

theorem has_entry_of_none {name : String} (hname : f.table.get? name = none) :
    (f.entry name).2.locations.Has (f.entry name).1 ∧ ¬ f.locations.Has (f.entry name).1 := by
  let location : Location := { name := name, content := .plain .nil }
  simp only [entry, hname]
  exact ⟨Arena.has_alloc f.locations location, Arena.not_has_alloc f.locations location⟩

theorem read_entry_of_none {name : String} (hname : f.table.get? name = none) :
    (f.entry name).2.locations.read (f.entry name).1 =
      { name := name, content := .plain .nil } := by
  simp only [entry, hname]
  exact Arena.read_alloc_self f.locations _

theorem read_entry (name : String) {place : Ref .global} (h : f.locations.Has place) :
    (f.entry name).2.locations.Has place ∧
      (f.entry name).2.locations.read place = f.locations.read place := by
  unfold entry
  cases f.table.get? name with
  | some _ => exact ⟨h, rfl⟩
  | none => exact ⟨h.alloc _, Arena.read_alloc_of_has h _⟩

theorem perform_get (f : Flat) (name : String) :
    (f.perform (.get name)).1 = .found (f.seen name) := by
  change GlobalAnswer.found ((f.entry name).2.locations.read (f.entry name).1).read = _
  unfold seen
  cases hname : f.table.get? name with
  | some place => rw [entry_of_some hname]
  | none => rw [read_entry_of_none hname]; rfl

theorem Settled.entry (h : f.Settled) (name : String) : (f.entry name).2.Settled := by
  intro other place hother
  cases hname : f.table.get? name with
  | some found =>
      rw [entry_of_some hname] at hother ⊢
      exact h other place hother
  | none =>
      rw [entry_of_none hname] at hother
      by_cases heq : name = other
      · simp only [heq, if_true, Option.some.injEq] at hother
        rw [← hother, ← heq]
        exact (has_entry_of_none hname).1
      · simp only [heq, if_false] at hother
        exact (read_entry name (h other place hother)).1

theorem Settled.seen_entry (h : f.Settled) (name other : String) :
    (f.entry name).2.seen other = f.seen other := by
  cases hname : f.table.get? name with
  | some found => rw [entry_of_some hname]
  | none =>
      unfold seen
      rw [entry_of_none hname]
      by_cases heq : name = other
      · subst heq
        simp only [if_true, hname]
        exact congrArg Location.read (read_entry_of_none hname)
      · simp only [heq, if_false]
        cases hother : f.table.get? other with
        | none => rfl
        | some place => exact congrArg Location.read (read_entry name (h other place hother)).2

/-- The names that come to share the location of a name are those that shared it before. -/
theorem Settled.get?_entry (h : f.Settled) (name other : String) :
    (f.entry name).2.table.get? other = some (f.entry name).1 ↔
      name = other ∨ f.Shares name other := by
  constructor
  · intro hother
    cases hname : f.table.get? name with
    | some place =>
        rw [entry_of_some hname] at hother
        exact Or.inr ⟨place, hname, hother⟩
    | none =>
        rw [entry_of_none hname] at hother
        by_cases heq : name = other
        · exact Or.inl heq
        · simp only [heq, if_false] at hother
          exact absurd (h other _ hother) (has_entry_of_none hname).2
  · intro hshares
    cases hname : f.table.get? name with
    | some place =>
        rw [entry_of_some hname]
        rcases hshares with rfl | ⟨found, hfound, hother⟩
        · exact hname
        · cases hname.symm.trans hfound
          exact hother
    | none =>
        rw [entry_of_none hname]
        rcases hshares with rfl | ⟨found, hfound, _⟩
        · simp
        · cases hname.symm.trans hfound

theorem Settled.write (h : f.Settled) {name : String} {place : Ref .global}
    (hname : f.table.get? name = some place) {value : Value} {f' : Flat}
    (hwrite : f.write place value = (.ok .stored, f')) (other : String) :
    (f.table.get? other = some place -> f'.seen other = .value value) ∧
      (f.table.get? other ≠ some place -> f'.seen other = f.seen other) := by
  unfold Flat.write at hwrite
  cases hcontent : (f.locations.read place).content with
  | readOnly _ => simp [hcontent] at hwrite
  | special _ => simp [hcontent] at hwrite
  | plain old =>
      simp only [hcontent, Prod.mk.injEq, true_and] at hwrite
      subst hwrite
      refine ⟨fun hother => ?_, fun hother => ?_⟩
      · simp only [seen, hother, Arena.read_write_self (h name place hname)]
        rfl
      · simp only [seen]
        cases hfound : f.table.get? other with
        | none => rfl
        | some found =>
            have hne : place ≠ found := fun he => hother (by rw [hfound, he])
            dsimp only
            rw [Arena.read_write_of_ne _ hne]

theorem Settled.set (h : f.Settled) {name : String} {value : Value}
    (hset : (f.perform (.set name value)).1 = .wrote (.ok .stored)) (other : String) :
    (name = other ∨ f.Shares name other ->
        (f.perform (.set name value)).2.seen other = .value value) ∧
      (¬ (name = other ∨ f.Shares name other) ->
        (f.perform (.set name value)).2.seen other = f.seen other) := by
  have hname := (h.get?_entry name name).mpr (Or.inl rfl)
  have hwrite : (f.entry name).2.write (f.entry name).1 value =
      (.ok .stored, (f.perform (.set name value)).2) :=
    Prod.ext (GlobalAnswer.wrote.inj hset) rfl
  rw [← h.get?_entry name other, ← h.seen_entry name other]
  exact (h.entry name).write hname hwrite other

end Flat

theorem Agrees.settled {roots : List Variable} {s : Session} {f : Flat} (h : Agrees roots s f) :
    f.Settled := by
  intro name place hname
  have hget := h.table.get? name
  rw [hname] at hget
  generalize s.globals.table.get? name = var at hget
  cases hget with
  | some hat => exact h.has_place hat

/-- After a write through one name, the names that share its location read the value written, and
all others read what they read before. -/
theorem Session.Refines.set {s : Session} {f : Flat} (h : s.Refines f) {name : String}
    {value : Value} {globals : Globals}
    (hset : s.globals.set name value = .ok (.stored, globals)) (other : String) :
    (name = other ∨ f.Shares name other -> (globals.get other).1 = .value value) ∧
      (¬ (name = other ∨ f.Shares name other) ->
        (globals.get other).1 = (s.globals.get other).1) := by
  obtain ⟨roots, hagrees⟩ := h
  have hperform : s.perform (.set name value) =
      (.wrote (.ok .stored), { s with globals := globals }) := by
    simp only [Session.perform, hset]
  obtain ⟨hanswer, roots', hafter⟩ := hagrees.perform (.set name value)
  rw [hperform] at hanswer hafter
  -- Both readings are those of the flat model.
  have hold := (hagrees.perform (.get other)).1
  have hnew := (hafter.perform (.get other)).1
  rw [Flat.perform_get] at hold hnew
  have hread := GlobalAnswer.found.inj hold
  have hreread := GlobalAnswer.found.inj hnew
  obtain ⟨hsame, hother⟩ := hagrees.settled.set hanswer.symm other
  exact ⟨fun hshares => hreread.trans (hsame hshares),
    fun hshares => hreread.trans ((hother hshares).trans hread.symm)⟩

/-! ## The main result -/

/-- The table of variables and the flat model answer every sequence of operations alike, and a
write that is stored is seen through exactly the names that share its location. -/
theorem aliases_share_locations (operations : List GlobalOperation) :
    let s := (performAll Session.perform {} operations).2
    let f := (performAll Flat.perform {} operations).2
    (performAll Session.perform {} operations).1 = (performAll Flat.perform {} operations).1 ∧
    (∀ name var, s.globals.lookup? name = some var -> var.links ≤ operations.length) ∧
    (∀ var ∈ s.held, var.links ≤ operations.length) ∧
    s.globals.names.Pairwise (· < ·) ∧
    (∀ name, name ∈ s.globals.names ↔ s.globals.isDefined name = true) ∧
    s.globals.names.length = s.globals.size ∧
    ∀ name value globals, s.globals.set name value = .ok (.stored, globals) ->
      ∀ other,
        (name = other ∨ f.Shares name other -> (globals.get other).1 = .value value) ∧
        (¬ (name = other ∨ f.Shares name other) ->
          (globals.get other).1 = (s.globals.get other).1) := by
  intro s f
  obtain ⟨hanswers, hrefines⟩ : (performAll Session.perform {} operations).1 =
      (performAll Flat.perform {} operations).1 ∧ s.Refines f :=
    performAll_related (fun h => Session.Refines.perform h) operations .empty
  have hsound : s.Sound operations.length := by
    have h := Session.Sound.empty.performAll operations
    rw [Nat.zero_add] at h
    exact h
  refine ⟨hanswers, hsound.table, hsound.held, Table.names_ascending hsound.distinct,
    s.globals.table.mem_names, s.globals.table.length_names, ?_⟩
  intro name value globals hset other
  exact hrefines.set hset other

/-- Two names aliased to each other, then one of them undefined, and an alias aliased to itself. -/
def aliasing : List GlobalOperation :=
  [.set "$a" (.int 1), .addAlias "$a" "$b", .addAlias "$b" "$a", .undefine "$b",
    .addAlias "$a" "$c", .addAlias "$c" "$c"]

/-- A write through the last alias is seen through the name it goes back to, and not through the
name that was undefined. -/
theorem aliasing_shares :
    ∃ globals, (performAll Session.perform {} aliasing).2.globals.set "$c" (.int 2) =
        .ok (.stored, globals) ∧
      (globals.get "$a").1 = .value (.int 2) ∧ (globals.get "$b").1 = .value .nil := by
  let f := (performAll Flat.perform {} aliasing).2
  obtain ⟨_, _, _, _, _, _, hset⟩ := aliases_share_locations aliasing
  have hstored : (performAll Session.perform {} aliasing).2.globals.set "$c" (.int 2) =
      .ok (.stored, _) := rfl
  have hshares : f.Shares "$c" "$a" := ⟨⟨0⟩, rfl, rfl⟩
  have happart : ¬ ("$c" = "$b" ∨ f.Shares "$c" "$b") := by
    rintro (h | ⟨place, _, h⟩)
    · exact absurd h (by decide)
    · have hnone : f.table.get? "$b" = none := rfl
      cases hnone.symm.trans h
  refine ⟨_, hstored, (hset _ _ _ hstored "$a").1 (Or.inr hshares), ?_⟩
  exact (hset _ _ _ hstored "$b").2 happart

end ExecutionContext
