import ExecutionContext.Proofs.HeapGrowth

/-! # Values in globals and arrays are in the heap

Texts and arrays are never freed, and whoever writes one into a global or puts one into an
array got it from the heap. So as far as a context came about by such operations, each text
and each array that can be read from a global or an array is still there.
-/

namespace ExecutionContext

namespace Heap

/-- The heap has the cell that a text or an array refers to. -/
def Stores (heap : Heap) : Value -> Prop
  | .text ref => heap.texts.Has ref
  | .array ref => heap.arrays.Has ref
  | _ => True

instance (heap : Heap) (value : Value) : Decidable (heap.Stores value) :=
  match value with
  | .text ref => inferInstanceAs (Decidable (ref.index < heap.texts.size))
  | .array ref => inferInstanceAs (Decidable (ref.index < heap.arrays.size))
  | .nil | .bool _ | .int _ | .float _ | .object _ | .module _ => isTrue trivial

/-- All texts are still there and read as before, and all arrays are still there. -/
structure Widens (before after : Heap) : Prop where
  texts_le : before.texts.size ≤ after.texts.size
  arrays_le : before.arrays.size ≤ after.arrays.size
  read_eq : ∀ {ref}, before.texts.Has ref -> after.texts.read ref = before.texts.read ref

variable {heap before mid after : Heap} {value : Value}

namespace Widens

theorem of_texts_eq (htexts : after.texts = before.texts)
    (harrays : before.arrays.size ≤ after.arrays.size) : before.Widens after where
  texts_le := Nat.le_of_eq (congrArg Arena.size htexts.symm)
  arrays_le := harrays
  read_eq _ := by rw [htexts]

theorem refl (heap : Heap) : heap.Widens heap :=
  of_texts_eq rfl (Nat.le_refl _)

theorem trans (h₁ : before.Widens mid) (h₂ : mid.Widens after) : before.Widens after where
  texts_le := Nat.le_trans h₁.texts_le h₂.texts_le
  arrays_le := Nat.le_trans h₁.arrays_le h₂.arrays_le
  read_eq hhas := (h₂.read_eq (Nat.lt_of_lt_of_le hhas h₁.texts_le)).trans (h₁.read_eq hhas)

theorem stores (h : before.Widens after) (hvalue : before.Stores value) : after.Stores value := by
  cases value with
  | text ref => exact Nat.lt_of_lt_of_le hvalue h.texts_le
  | array ref => exact Nat.lt_of_lt_of_le hvalue h.arrays_le
  | _ => trivial

theorem asText?_eq (h : before.Widens after) (hvalue : before.Stores value) :
    after.asText? value = before.asText? value := by
  cases value with
  | text ref => exact congrArg some (h.read_eq hvalue)
  | _ => rfl

theorem newText (heap : Heap) (text : String) : heap.Widens (heap.newText text).2 where
  texts_le := by simp [Heap.newText]
  arrays_le := Nat.le_refl _
  read_eq hhas := Arena.read_alloc_of_has hhas text

theorem newTexts (heap : Heap) (texts : List String) : heap.Widens (heap.newTexts texts).2 := by
  induction texts generalizing heap with
  | nil => exact .refl heap
  | cons text texts ih => exact (newText heap text).trans (ih _)

theorem newArray (heap : Heap) (items : List Value) : heap.Widens (heap.newArray items).2 :=
  of_texts_eq rfl (by simp [Heap.newArray])

theorem push (heap : Heap) (target item : Value) :
    heap.Widens (heap.arrayPush target item).2 := by
  cases target with
  | array ref => exact of_texts_eq rfl (by simp [Heap.arrayPush, Arena.modify])
  | _ => exact .refl heap

end Widens

theorem stores_newText (heap : Heap) (text : String) :
    (heap.newText text).2.Stores (heap.newText text).1 :=
  Arena.has_alloc heap.texts text

/-- New texts are in the heap, and read as they were given. -/
theorem newTexts_spec (heap : Heap) (texts : List String) :
    (∀ value ∈ (heap.newTexts texts).1, (heap.newTexts texts).2.Stores value) ∧
      (heap.newTexts texts).1.map (heap.newTexts texts).2.asText? = texts.map some := by
  induction texts generalizing heap with
  | nil => exact ⟨nofun, rfl⟩
  | cons text texts ih =>
      obtain ⟨hstores, hread⟩ := ih (heap.newText text).2
      have hfirst := stores_newText heap text
      have hwidens := Widens.newTexts (heap.newText text).2 texts
      have htext : (heap.newText text).2.asText? (heap.newText text).1 = some text :=
        congrArg some (Arena.read_alloc_self heap.texts text)
      refine ⟨List.forall_mem_cons.mpr ⟨hwidens.stores hfirst, hstores⟩, ?_⟩
      exact congrArg₂ List.cons ((hwidens.asText?_eq hfirst).trans htext) hread

def Filled (heap : Heap) : Prop :=
  ∀ ref, heap.arrays.Has ref -> ∀ item ∈ heap.arrays.read ref, heap.Stores item

namespace Filled

theorem items (h : heap.Filled) (value : Value) :
    ∀ item ∈ (heap.items? value).getD [], heap.Stores item := by
  cases value with
  | array ref =>
      intro item hitem
      by_cases hhas : heap.arrays.Has ref
      · exact h ref hhas item hitem
      · have hout : ¬ ref.index < heap.arrays.cells.size := hhas
        have hempty : heap.arrays.read ref = [] := by
          rw [Arena.read, Array.getD_eq_getD_getElem?,
            Array.getElem?_eq_none (Nat.le_of_not_lt hout), Option.getD_none]
          rfl
        rw [Heap.items?, Option.getD_some, hempty] at hitem
        cases hitem
  | _ =>
      intro item hitem
      cases hitem

theorem widen (h : before.Filled) (hwidens : before.Widens after)
    (harrays : after.arrays = before.arrays) : after.Filled := by
  intro ref hhas item hitem
  rw [harrays] at hhas hitem
  exact hwidens.stores (h ref hhas item hitem)

theorem newArray (h : heap.Filled) {items : List Value}
    (hitems : ∀ item ∈ items, heap.Stores item) : (heap.newArray items).2.Filled := by
  intro ref hhas item hitem
  refine (Widens.newArray heap items).stores ?_
  rcases Arena.has_alloc_iff.mp hhas with hold | hnew
  · exact h ref hold item ((Arena.read_alloc_of_has hold items) ▸ hitem)
  · have hread : (heap.newArray items).2.arrays.read ref = items :=
      hnew ▸ Arena.read_alloc_self heap.arrays items
    exact hitems item (hread ▸ hitem)

theorem push (h : heap.Filled) {target item : Value} (htarget : heap.Stores target)
    (hitem : heap.Stores item) : (heap.arrayPush target item).2.Filled := by
  cases target with
  | array pushed =>
      have hwidens := Widens.push heap (.array pushed) item
      intro ref hhas element helement
      have hold : heap.arrays.Has ref := Arena.has_write.mp hhas
      refine hwidens.stores ?_
      by_cases href : pushed = ref
      · subst href
        rw [Heap.arrayPush, Arena.modify, Arena.read_write_self htarget] at helement
        rcases List.mem_append.mp helement with hin | hnew
        · exact h pushed hold element hin
        · exact List.mem_singleton.mp hnew ▸ hitem
      · rw [Heap.arrayPush, Arena.modify, Arena.read_write_of_ne _ href] at helement
        exact h ref hold element helement
  | _ => exact h

end Filled

theorem Edit.widens (edit : Edit) (heap : Heap) : heap.Widens (edit.apply heap) := by
  cases edit with
  | newText text => exact .newText heap text
  | newTexts texts => exact .newTexts heap texts
  | newArray items => exact .newArray heap items
  | fromArgs args =>
      show heap.Widens (heap.fromArgs args).2
      unfold Heap.fromArgs
      split
      · exact .refl heap
      · exact .newArray heap args
  -- Objects and modules are kept in cells of their own.
  | _ => exact .of_texts_eq rfl (Nat.le_refl _)

theorem Filled.edit (h : heap.Filled) {edit : Edit}
    (hitems : ∀ item ∈ edit.items, heap.Stores item) : (edit.apply heap).Filled := by
  have hwidens := edit.widens heap
  cases edit with
  | newTexts texts => exact h.widen hwidens (arrays_newTexts heap texts)
  | newArray items => exact h.newArray hitems
  | fromArgs args =>
      show (heap.fromArgs args).2.Filled
      unfold Heap.fromArgs
      split
      · exact h
      · exact h.newArray hitems
  | _ => exact h.widen hwidens rfl

end Heap

/-! ## Globals -/

/-- The cell of a plain variable, to which links may lead, is one of those there are. -/
def Variable.Settled (cells : GlobalCells) (var : Variable) : Prop :=
  ∀ original cell, var.root = .plain original cell -> cells.Has cell

theorem Variable.settled_readOnly (cells : GlobalCells) (name : String) (value : Value) :
    (Variable.readOnly name value).Settled cells := fun _ _ h => by cases h

theorem Variable.settled_special (cells : GlobalCells) (name : String) (kind : SpecialGlobal) :
    (Variable.special name kind).Settled cells := fun _ _ h => by cases h

/-- Plain variables have their cells, and texts and arrays in those are in the heap. -/
structure Globals.Grounded (globals : Globals) (heap : Heap) : Prop where
  settled : ∀ {name var}, globals.lookup? name = some var -> var.Settled globals.cells
  stored : ∀ {cell}, globals.cells.Has cell -> heap.Stores (globals.cells.read cell)

namespace Globals.Grounded

variable {globals written : Globals} {heap wider : Heap} {name : String} {value : Value}

theorem empty (heap : Heap) : Globals.Grounded {} heap where
  settled h := by cases h
  stored h := absurd h (Nat.not_lt_zero _)

theorem widen (h : globals.Grounded heap) (hwidens : heap.Widens wider) :
    globals.Grounded wider :=
  ⟨h.settled, fun hhas => hwidens.stores (h.stored hhas)⟩

theorem define (h : globals.Grounded heap) {var : Variable} (hvar : var.Settled globals.cells) :
    (globals.define var).Grounded heap where
  settled {name found} hlookup := by
    rw [lookup?, Globals.define, Table.get?_insert] at hlookup
    split at hlookup
    · cases hlookup
      exact hvar
    · exact h.settled hlookup
  stored := h.stored

theorem definePlain (h : globals.Grounded heap) (name : String) (value : Value)
    (hvalue : heap.Stores value) :
    (globals.definePlain name value).2.Grounded heap ∧
      (globals.definePlain name value).1.Settled (globals.definePlain name value).2.cells := by
  have hcell : (Variable.plain name (globals.cells.alloc value).1).Settled
      (globals.cells.alloc value).2 := by
    rintro original cell ⟨⟩
    exact Arena.has_alloc globals.cells value
  have hwider : Globals.Grounded { globals with cells := (globals.cells.alloc value).2 } heap := by
    refine ⟨fun hlookup original cell hroot => ?_, fun {cell} hhas => ?_⟩
    · exact Arena.Has.alloc (h.settled hlookup original cell hroot) value
    · rcases Arena.has_alloc_iff.mp hhas with hold | hnew
      · rw [Arena.read_alloc_of_has hold]
        exact h.stored hold
      · rw [hnew, Arena.read_alloc_self]
        exact hvalue
  exact ⟨hwider.define hcell, hcell⟩

theorem undefine (h : globals.Grounded heap) (name : String) :
    (globals.undefine name).2.Grounded heap where
  settled {other var} hlookup := by
    rw [lookup?, Globals.undefine, Table.get?_erase] at hlookup
    split at hlookup
    · cases hlookup
    · exact h.settled hlookup
  stored := h.stored

theorem entry (h : globals.Grounded heap) (name : String) :
    (globals.entry name).2.Grounded heap ∧
      (globals.entry name).1.Settled (globals.entry name).2.cells := by
  unfold Globals.entry
  cases hlookup : globals.lookup? name with
  | some var => exact ⟨h, h.settled hlookup⟩
  | none => exact h.definePlain name .nil trivial

theorem get (h : globals.Grounded heap) (name : String) : (globals.get name).2.Grounded heap :=
  (h.entry name).1

theorem addAlias (h : globals.Grounded heap) (old new : String) :
    (globals.addAlias old new).Grounded heap := by
  obtain ⟨hentry, htarget⟩ := h.entry old
  exact hentry.define htarget

theorem write (h : globals.Grounded heap) (cell : Ref .global) (hvalue : heap.Stores value) :
    Globals.Grounded { globals with cells := globals.cells.write cell value } heap where
  settled hlookup original held hroot := Arena.has_write.mpr (h.settled hlookup original held hroot)
  stored {held} hhas := by
    have hold : globals.cells.Has held := Arena.has_write.mp hhas
    by_cases hcell : cell = held
    · subst hcell
      rw [Arena.read_write_self hold]
      exact hvalue
    · rw [Arena.read_write_of_ne _ hcell]
      exact h.stored hold

theorem set (h : globals.Grounded heap) {outcome : GlobalWrite} (hvalue : heap.Stores value)
    (hset : globals.set name value = .ok (outcome, written)) : written.Grounded heap := by
  have hentry := (h.entry name).1
  unfold Globals.set at hset
  generalize globals.entry name = found at hset hentry
  obtain ⟨var, defined⟩ := found
  dsimp only at hset hentry
  rw [← Variable.write_root] at hset
  cases hroot : var.root with
  | plain original cell =>
      rw [hroot] at hset
      cases hset
      exact hentry.write cell hvalue
  | special original kind =>
      rw [hroot] at hset
      cases hset
      exact hentry
  | readOnly original fixed =>
      rw [hroot] at hset
      cases hset
  | aliasOf original target => exact absurd hroot (var.root_ne_alias original target)

end Globals.Grounded

/-! ## Contexts -/

variable {H : Host}

structure Context.Grounded (c : Context H) : Prop where
  globals : c.globals.Grounded c.heap
  heap : c.heap.Filled

/-- The standard globals hold an array of texts, an empty one, and two texts. -/
theorem grounded_defineStandardGlobals (config : Config) (processId : Int64) {globals : Globals}
    {heap : Heap} (hglobals : globals.Grounded heap) (hheap : heap.Filled) :
    (defineStandardGlobals config processId globals heap).1.Grounded
        (defineStandardGlobals config processId globals heap).2 ∧
      (defineStandardGlobals config processId globals heap).2.Filled := by
  unfold defineStandardGlobals
  have hdirectories := Heap.Widens.newTexts heap config.searchDirectories
  have hstored := (Heap.newTexts_spec heap config.searchDirectories).1
  have hsame := Heap.arrays_newTexts heap config.searchDirectories
  generalize heap.newTexts config.searchDirectories = directories at *
  obtain ⟨directories, heap₁⟩ := directories
  dsimp only at hdirectories hstored hsame ⊢
  have hpath := Heap.Widens.newArray heap₁ directories
  have hpathStored : (heap₁.newArray directories).2.Stores (heap₁.newArray directories).1 :=
    Arena.has_alloc heap₁.arrays directories
  have hfilled := (hheap.widen hdirectories hsame).newArray hstored
  generalize heap₁.newArray directories = path at *
  obtain ⟨path, heap₂⟩ := path
  dsimp only at hpath hpathStored hfilled ⊢
  have hfeatures := Heap.Widens.newArray heap₂ []
  have hfeaturesStored : (heap₂.newArray []).2.Stores (heap₂.newArray []).1 :=
    Arena.has_alloc heap₂.arrays []
  have hnone : ∀ item ∈ ([] : List Value), heap₂.Stores item := nofun
  have hfilled := hfilled.newArray hnone
  generalize heap₂.newArray [] = features at *
  obtain ⟨features, heap₃⟩ := features
  dsimp only at hfeatures hfeaturesStored hfilled ⊢
  have hseparator := Heap.Widens.newText heap₃ "\n"
  have hscript := Heap.Widens.newText (heap₃.newText "\n").2 config.scriptName
  have hlast := hseparator.trans hscript
  refine ⟨?_, hfilled.widen hlast rfl⟩
  have hglobals := hglobals.widen
    (((hdirectories.trans hpath).trans hfeatures).trans hlast)
  have hpaths := (hglobals.definePlain "$:" path ((hfeatures.trans hlast).stores hpathStored)).1
  have hlists := ((hpaths.addAlias "$:" "$LOAD_PATH").definePlain "$\"" features
    (hlast.stores hfeaturesStored)).1.addAlias "$\"" "$LOADED_FEATURES"
  have hlines := (hlists.definePlain "$/" _ (hscript.stores (Heap.stores_newText heap₃ "\n"))).1
  have hnils := (((hlines.definePlain "$," .nil trivial).1.definePlain "$;" .nil
    trivial).1.definePlain "$\\" .nil trivial).1
  have hflags := ((hnils.definePlain "$VERBOSE" (.bool config.verbose) trivial).1.definePlain
    "$DEBUG" (.bool config.debug) trivial).1
  refine Globals.Grounded.define ?_ (Variable.settled_special _ _ _)
  refine Globals.Grounded.define ?_ (Variable.settled_special _ _ _)
  refine Globals.Grounded.define ?_ (Variable.settled_special _ _ _)
  refine Globals.Grounded.define ?_ (Variable.settled_readOnly _ _ _)
  exact hflags.define (Variable.settled_readOnly _ _ _)

theorem Context.Grounded.start {c : Context H} (h : c.Grounded) (processId : Int64) :
    (c.start processId).Grounded := by
  rcases start_cases c processId with hagain | ⟨classes, object, hclasses, hglobals, hheap⟩
  · rw [hagain]
    exact h
  · have hsize := Nat.le_of_eq (congrArg Arena.size hclasses.arrays_eq.symm)
    have hwidens : c.heap.Widens classes := .of_texts_eq hclasses.texts_eq hsize
    obtain ⟨hgrounded, hfilled⟩ := grounded_defineStandardGlobals c.config processId
      (h.globals.widen hwidens) (h.heap.widen hwidens hclasses.arrays_eq)
    have hlast : ∀ heap : Heap, heap.Widens (heap.newObject object).2 :=
      fun heap => .of_texts_eq rfl (Nat.le_refl _)
    refine ⟨?_, ?_⟩
    · rw [hglobals, hheap]
      exact hgrounded.widen (hlast _)
    · rw [hheap]
      exact hfilled.widen (hlast _) rfl

end ExecutionContext
