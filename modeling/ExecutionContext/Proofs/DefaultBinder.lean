import ExecutionContext.Proofs.Binding
import ExecutionContext.Proofs.Handles
import ExecutionContext.Proofs.Layer

/-! # What the default binding leaves behind

The default way to bind parameters is a series of writes to one chain: each name gets the
item at its place, or nil, and then a splat gets an array of what is left over. Where names
are repeated, the last write is the one that is read.
-/

namespace ExecutionContext

variable {H : Host} {ε : Type}

/-! ## The writes of a pattern -/

/-- The writes that give each name the item at its place, or nil. -/
def itemWrites (names : List String) (items : List Value) : List (String × Value) :=
  names.mapIdx fun place name => (name, (items[place]?).getD .nil)

theorem itemWrites_cons (name : String) (names : List String) (items : List Value) :
    itemWrites (name :: names) items =
      (name, items.head?.getD .nil) :: itemWrites names items.tail := by
  simp only [itemWrites, List.mapIdx_cons, List.getElem?_tail, List.head?_eq_getElem?]

theorem itemWrites_append (first last : List String) (items : List Value) :
    itemWrites (first ++ last) items =
      itemWrites first items ++ itemWrites last (items.drop first.length) := by
  simp only [itemWrites, List.mapIdx_append, List.getElem?_drop, Nat.add_comm]

theorem map_fst_itemWrites (names : List String) (items : List Value) :
    (itemWrites names items).map Prod.fst = names := by
  induction names generalizing items with
  | nil => rfl
  | cons name names ih => rw [itemWrites_cons, List.map_cons, ih]

/-- All writes of a pattern, and the heap with the array of what is left over. -/
def patternWrites (names : List String) (splat : Option String) (items : List Value)
    (heap : Heap) : List (String × Value) × Heap :=
  match splat with
  | none => (itemWrites names items, heap)
  | some rest =>
      let (array, heap) := heap.newArray (items.drop names.length)
      (itemWrites names items ++ [(rest, array)], heap)

theorem map_fst_patternWrites (names : List String) (splat : Option String) (items : List Value)
    (heap : Heap) : (patternWrites names splat items heap).1.map Prod.fst =
      (Pattern.multiple names splat).names := by
  cases splat with
  | none =>
      rw [Pattern.names, Option.toList_none, List.append_nil]
      exact map_fst_itemWrites names items
  | some rest =>
      show (itemWrites names items ++ [(rest, _)]).map Prod.fst = names ++ [rest]
      rw [List.map_append, map_fst_itemWrites]
      rfl

def Context.withBound (c : Context H) (names : List String) (splat : Option String)
    (items : List Value) : Context H :=
  let (writes, heap) := patternWrites names splat items c.heap
  let (chain, bindings) := c.chain.setAll c.bindings writes
  { c with heap := heap, chain := chain, bindings := bindings }

theorem bindNames_eq (names : List String) (items : List Value) (c : Context H) :
    (bindNames names items : Run ε H Unit) c =
      .ok () { c with
        chain := (c.chain.setAll c.bindings (itemWrites names items)).1
        bindings := (c.chain.setAll c.bindings (itemWrites names items)).2 } := by
  induction names generalizing items c with
  | nil => rfl
  | cons name names ih =>
      rw [itemWrites_cons]
      exact ih items.tail _

/-- Binding a pattern of several names refuses a count that does not fit, when it is strict, and
is a series of writes otherwise. -/
theorem bindDynamic_multiple (names : List String) (splat : Option String) (value : Value)
    (strict : Bool) (c : Context H) :
    let items := c.heap.toArgs value
    bindDynamic (.multiple names splat) value strict c =
      if strict = true ∧
          (items.length < names.length ∨ splat = none ∧ names.length < items.length) then
        .error (.raised { cause := .wrongArguments names.length items.length }) c
      else .ok () (c.withBound names splat items) := by
  intro items
  have hcount : (strict && (decide (items.length < names.length) ||
      splat.isNone && decide (names.length < items.length))) = true ↔ strict = true ∧
        (items.length < names.length ∨ splat = none ∧ names.length < items.length) := by
    simp
  simp only [bindDynamic, Run.bind_apply, Run.get_apply]
  by_cases hrefused : strict = true ∧
      (items.length < names.length ∨ splat = none ∧ names.length < items.length)
  · rw [if_pos hrefused, if_pos (hcount.mpr hrefused)]
    rfl
  · rw [if_neg hrefused, if_neg fun h => hrefused (hcount.mp h)]
    cases splat with
    | none =>
        simp only [Run.bind_apply, bindNames_eq]
        rfl
    | some rest =>
        simp only [Run.bind_apply, bindNames_eq, Context.withBound, patternWrites,
          Chain.setAll_append]
        rfl

/-! ## What each name reads -/

/-- What binding a pattern of several names to items leaves. `others` are chains that are held
beside the one in which the pattern was bound. -/
structure Context.Binds (names : List String) (splat : Option String) (items : List Value)
    (others : List Chain) (c d : Context H) : Prop where
  /-- The splat reads a new array of what is left over. -/
  rest : ∀ {name}, splat = some name -> ∃ array,
    d.chain.get? d.bindings name = some (.array array) ∧ ¬ c.heap.arrays.Has array ∧
    d.heap.items? (.array array) = some (items.drop names.length)
  /-- Any other name of the pattern reads the item at its last place, or nil. -/
  item : ∀ {first name last}, names = first ++ name :: last -> name ∉ last -> splat ≠ some name ->
    d.chain.get? d.bindings name = some ((items[first.length]?).getD .nil)
  unbound : ∀ {name}, name ∉ (Pattern.multiple names splat).names ->
    d.chain.get? d.bindings name = c.chain.get? c.bindings name
  visible : ∀ {name}, name ∈ d.chain.names ↔
    name ∈ c.chain.names ∨ name ∈ (Pattern.multiple names splat).names
  /-- A visible name keeps its link, where all read it who read that link. -/
  shared : ∀ {name cell}, c.chain.find? name = some cell -> d.chain.find? name = some cell ∧
    ∀ other ∈ c.chain :: others, other.find? name = some cell ->
      other.get? d.bindings name = d.chain.get? d.bindings name
  /-- A new name has a link that stands in no other chain. -/
  fresh : ∀ {name cell}, c.chain.find? name = none -> d.chain.find? name = some cell ->
    ∀ other ∈ c.chain :: others, ∀ link ∈ other, link.cell ≠ cell
  /-- Other chains read what they did, but for the links that the pattern's names had. -/
  elsewhere : ∀ other ∈ c.chain :: others, ∀ name,
    (∀ bound ∈ (Pattern.multiple names splat).names, ∀ cell, c.chain.find? bound = some cell ->
      other.find? name ≠ some cell) ->
    other.get? d.bindings name = other.get? c.bindings name
  held : d.bindings.Held (d.chain :: c.chain :: others)
  same : d = { c with heap := d.heap, chain := d.chain, bindings := d.bindings }

namespace Context

variable {c : Context H}

/-- The array of what is left over is written last, so that its name reads it whatever else the
name stands for. -/
theorem withBound_rest (h : c.bindings.Owns c.chain) (names : List String) (name : String)
    (items : List Value) :
    let d := c.withBound names (some name) items
    ∃ array, d.chain.get? d.bindings name = some (.array array) ∧ ¬ c.heap.arrays.Has array ∧
      d.heap.items? (.array array) = some (items.drop names.length) := by
  have hlast : name ∉ ([] : List (String × Value)).map Prod.fst := List.not_mem_nil
  have hread := Chain.get?_setAll_of_last h (itemWrites names items) hlast
    (c.heap.newArray (items.drop names.length)).1
  have hnew := Arena.not_has_alloc c.heap.arrays (items.drop names.length)
  exact ⟨_, hread, hnew, Heap.items?_newArray c.heap (items.drop names.length)⟩

theorem withBound_item (h : c.bindings.Owns c.chain) {first last : List String} {name : String}
    (hlast : name ∉ last) {splat : Option String} (hsplat : splat ≠ some name)
    (items : List Value) :
    let d := c.withBound (first ++ name :: last) splat items
    d.chain.get? d.bindings name = some ((items[first.length]?).getD .nil) := by
  have hitems : itemWrites (first ++ name :: last) items =
      itemWrites first items ++ (name, (items[first.length]?).getD .nil) ::
        itemWrites last (items.drop first.length).tail := by
    rw [itemWrites_append, itemWrites_cons, List.head?_drop]
  have hnotMem : name ∉ (itemWrites last (items.drop first.length).tail).map Prod.fst := by
    rw [map_fst_itemWrites]
    exact hlast
  cases splat with
  | none =>
      simp only [withBound, patternWrites, hitems]
      exact Chain.get?_setAll_of_last h _ hnotMem _
  | some rest =>
      -- One more write comes last, but to another name.
      have hne : name ≠ rest := fun heq => hsplat (congrArg some heq.symm)
      simp only [withBound, patternWrites, hitems, List.append_assoc, List.cons_append]
      refine Chain.get?_setAll_of_last h _ ?_ _
      rw [List.map_append, List.mem_append]
      exact fun hm => hm.elim hnotMem fun hrest => hne (List.mem_singleton.mp hrest)

theorem binds_withBound {others : List Chain} (hheld : c.bindings.Held (c.chain :: others))
    (names : List String) (splat : Option String) (items : List Value) :
    c.Binds names splat items others (c.withBound names splat items) := by
  have howns := hheld.owns
  have hown : c.bindings.Owns c.chain := howns.subset (List.subset_append_left _ _)
  have hhas : ∀ other ∈ c.chain :: others, ∀ link ∈ other, c.bindings.Has link.cell :=
    fun other hother link hlink => howns.has (List.mem_flatten.mpr ⟨other, hother, hlink⟩)
  have hover := Chain.setAll_overwrites c.chain c.bindings
    (patternWrites names splat items c.heap).1
  rw [map_fst_patternWrites] at hover
  constructor
  case rest =>
    intro name hsplat
    rw [hsplat]
    exact withBound_rest hown names name items
  case item =>
    intro first name last hnames hlast hsplat
    rw [hnames]
    exact withBound_item hown hlast hsplat items
  case unbound =>
    intro name hname
    have hnotMem := hname
    rw [← map_fst_patternWrites names splat items c.heap] at hnotMem
    exact Chain.get?_setAll_of_notMem hown hnotMem
  case visible =>
    intro name
    rw [Chain.mem_names_iff_isDefined, Chain.mem_names_iff_isDefined]
    exact hover.visible
  case shared =>
    intro name cell hfind
    have hkept := hover.kept hfind
    refine ⟨hkept, fun other _ hother => ?_⟩
    rw [Chain.get?_of_find? hother]
    exact (Chain.get?_of_find? hkept).symm
  case fresh =>
    intro name cell hnone hsome other hother link hlink heq
    have hold := hhas other hother link hlink
    rw [heq] at hold
    exact hover.fresh hnone hsome hold
  case elsewhere =>
    intro other hother name hne
    cases hfind : other.find? name with
    | none => rw [Chain.get?_of_find?_none hfind, Chain.get?_of_find?_none hfind]
    | some cell =>
        have hcell := hhas other hother _ (Chain.mem_of_find? hfind)
        have hread := hover.elsewhere hcell fun bound hbound hheld =>
          hne bound hbound cell hheld hfind
        rw [Chain.get?_of_find? hfind, Chain.get?_of_find? hfind]
        exact congrArg some hread
  case held => exact Chain.setAll_held hheld List.mem_cons_self _
  case same => rfl

end Context

/-! ## The main result -/

/-- The default binding refuses a misfit when it is strict, and changes nothing then; else each
name reads what the pattern gives it, or what it read before. -/
theorem default_binding_assigns_pattern (c : Context H) (others : List Chain)
    (hheld : c.bindings.Held (c.chain :: others)) (names : List String) (splat : Option String)
    (value : Value) (strict : Bool) :
    let items := c.heap.toArgs value
    let run : Run Failure H Unit := bindDynamic (.multiple names splat) value strict
    let misfit := items.length < names.length ∨ splat = none ∧ names.length < items.length
    (strict = true ∧ misfit ->
      run c = .error (.raised { cause := .wrongArguments names.length items.length }) c) ∧
    (¬ (strict = true ∧ misfit) ->
      ∃ d, run c = .ok () d ∧ c.Binds names splat items others d) := by
  intro items run misfit
  have hrun := bindDynamic_multiple names splat value strict c
  refine ⟨fun hrefused => ?_, fun hfits => ?_⟩
  · exact hrun.trans (if_pos hrefused)
  · exact ⟨_, hrun.trans (if_neg hfits), Context.binds_withBound hheld names splat items⟩

/-! ## A pattern that repeats a variable of the creator -/

/-- The chain of a creator with one variable, which a block captured. -/
def Chain.creator : Chain × Bindings :=
  Chain.declare [] {} "shared" .nil

/-- An activation of that block, with an array of four elements to bind. -/
def Context.activation : Context Bare :=
  let inner := Chain.creator.1.activate Chain.creator.2
  { (Context.new {} .silent () : Context Bare) with
    chain := inner.1
    bindings := inner.2
    heap := (Heap.newArray {} [.int 1, .int 2, .int 3, .int 4]).2 }

/-- The repeated name takes the third element, which the creator reads too, and the rest is an array
of the fourth. Without a splat the elements are too many. -/
theorem default_binding_assigns_pattern_repeating :
    let c := Context.activation
    let bind (splat : Option String) : Run Failure Bare Unit :=
      bindDynamic (.multiple ["shared", "own", "shared"] splat) (.array ⟨0⟩) true
    (∃ d, bind (some "rest") c = .ok () d ∧
      d.chain.get? d.bindings "shared" = some (.int 3) ∧
      Chain.creator.1.get? d.bindings "shared" = some (.int 3) ∧
      d.chain.get? d.bindings "own" = some (.int 2) ∧
      ∃ array, d.chain.get? d.bindings "rest" = some (.array array) ∧
        d.heap.items? (.array array) = some [.int 4]) ∧
    bind none c = .error (.raised { cause := .wrongArguments 3 4 }) c := by
  intro c bind
  have hdeclared : Chain.creator.2.Held [Chain.creator.1, []] :=
    .declare "shared" .nil (.empty .nothing) List.mem_cons_self
  have hheld : c.bindings.Held [c.chain, Chain.creator.1] :=
    .forget (.activate hdeclared List.mem_cons_self)
      (List.subset_append_left [c.chain, Chain.creator.1] [[]])
  have hbind := default_binding_assigns_pattern c [Chain.creator.1] hheld
    ["shared", "own", "shared"]
  obtain ⟨d, hrun, hbinds⟩ := (hbind (some "rest") (.array ⟨0⟩) true).2 (by decide)
  have hshared := hbinds.item (show _ = ["shared", "own"] ++ "shared" :: [] from rfl) (by decide)
    (by decide)
  have hown := hbinds.item (show _ = ["shared"] ++ "own" :: ["shared"] from rfl) (by decide)
    (by decide)
  have hcreator := (hbinds.shared (show c.chain.find? "shared" = some ⟨0⟩ from rfl)).2
    Chain.creator.1 (by simp) rfl
  obtain ⟨array, hread, _, hitems⟩ := hbinds.rest rfl
  refine ⟨⟨d, hrun, hshared, hcreator.trans hshared, hown, array, hread, hitems⟩, ?_⟩
  exact (hbind none (.array ⟨0⟩) true).1 (by decide)

end ExecutionContext
