import ExecutionContext.Proofs.LossyText
import ExecutionContext.Proofs.StoredValues

/-! # The order of the search path

The search path is an array in a global, which may have other names and which programs may
write, replace, and push to. Directories are put in front of it by making a new array, in
which the elements of the old one follow; the old array stays as it is. A directory is put
there as its lossy text, and so is kept as it is when it is UTF-8. A file is looked for under the
texts of the array that is there at the time, in their order.
-/

namespace ExecutionContext

variable {H : Host} {ε : Type}

/-! ## Reading and writing globals -/

section Plain

variable {c : Context H} {name original : String} {cell : Ref .global}

theorem globalGet_plain (h : c.globals.LeadsTo name (.plain original cell)) :
    (globalGet name : Run ε H Value) c = .ok (c.globals.cells.read cell) c := by
  rw [globalGet_eq, Context.globalValue, h.get_eq]
  rfl

theorem globalSet_plain (h : c.globals.LeadsTo name (.plain original cell)) (value : Value) :
    globalSet name value c = .ok value
      { c with globals := { c.globals with cells := c.globals.cells.write cell value } } :=
  globalSet_stored (h.set_eq value)

end Plain

/-! ## Putting directories in front -/

/-- What is left of a path that is kept as a text. -/
def Path.kept (path : Path) : Path :=
  .ofText path.lossy

theorem searchEntries_eq (list : Bytes) :
    Path.searchEntries list =
      ((Path.splitAt Path.listSeparator list).map Path.mk).filter fun entry =>
        decide (entry.bytes ≠ []) := by
  rw [Path.searchEntries, List.filter_map]
  congr 1
  refine List.filter_congr fun entry _ => ?_
  cases entry with
  | nil => rfl
  | cons byte rest => rfl

/-! ## Histories -/

namespace Context.Grounded

variable {c d : Context H} {value : Value}

theorem globalGet (h : c.Grounded) (name : String) :
    ((ExecutionContext.globalGet name : Run ε H Value).after c).Grounded := by
  rw [Run.after_of_ok (globalGet_eq name c)]
  exact ⟨h.globals.get name, h.heap⟩

theorem globalSet (h : c.Grounded) (name : String) (hvalue : c.heap.Stores value) :
    ((ExecutionContext.globalSet name value : Run Failure H Value).after c).Grounded := by
  rcases after_globalSet_cases name value c with hafter | ⟨globals, hset, hafter⟩ | ⟨kind, hafter⟩
  · rw [hafter]
    exact h
  · rw [hafter]
    exact ⟨h.globals.set hvalue hset, h.heap⟩
  · obtain ⟨cells, level, _, hwrite⟩ := after_writeSpecial kind value c
    rw [hafter, hwrite]
    exact ⟨h.globals, h.heap⟩

theorem extendSearchPath (h : c.Grounded) (directories : List Path) (list : Option Bytes) :
    Context.Grounded
      ((ExecutionContext.extendSearchPath directories list : Run Failure H Unit).after c) := by
  have heq := extendSearchPath_eq directories list c
  generalize (searchFront directories list).map Path.lossy = front at heq
  have hwiden := Heap.Widens.newTexts c.heap front
  have hfront := (Heap.newTexts_spec c.heap front).1
  have hsame := Heap.arrays_newTexts c.heap front
  generalize c.heap.newTexts front = texts at *
  have hfilled := h.heap.widen hwiden hsame
  have hitems := List.forall_mem_append.mpr
    ⟨hfront, hfilled.items (c.globalValue searchPathName)⟩
  have hnew := Heap.Widens.newArray texts.2
    (texts.1 ++ (texts.2.items? (c.globalValue searchPathName)).getD [])
  rw [Run.after, heq]
  show ((replaceSearchPath _ : Run Failure H Unit).after _).Grounded
  rw [after_replaceSearchPath]
  refine globalSet ⟨(h.globals.get searchPathName).widen (hwiden.trans hnew), ?_⟩ _ ?_
  · exact hfilled.newArray hitems
  · exact Arena.has_alloc texts.2.arrays _

end Context.Grounded

/-- A context that came about by starts, by operations on globals and on values, and by putting
directories in front of the search path. What is written, put into an array or pushed is in the
heap. All else leaves globals, texts and arrays alone. -/
inductive Context.Evolved : Context H -> Prop where
  | new (config : Config) (errors : ErrorStream) (host : H.State) :
      Evolved (Context.new config errors host)
  | start {c : Context H} (processId : Int64) : Evolved c -> Evolved (c.start processId)
  | define {c : Context H} {value : Value} (name : String) : Evolved c -> c.heap.Stores value ->
      Evolved ((defineGlobal name value : Run Failure H Unit).after c)
  | defineVariable {c : Context H} {var : Variable} : Evolved c -> var.Settled c.globals.cells ->
      Evolved ((defineVariable var : Run Failure H Unit).after c)
  | undefine {c : Context H} (name : String) : Evolved c ->
      Evolved ((undefineGlobal name : Run Failure H Bool).after c)
  | link {c : Context H} (old new : String) : Evolved c ->
      Evolved ((aliasGlobal old new : Run Failure H Unit).after c)
  | read {c : Context H} (name : String) : Evolved c ->
      Evolved ((globalGet name : Run Failure H Value).after c)
  | write {c : Context H} {value : Value} (name : String) : Evolved c -> c.heap.Stores value ->
      Evolved ((globalSet name value : Run Failure H Value).after c)
  | push {c : Context H} {target item : Value} : Evolved c -> c.heap.Stores target ->
      c.heap.Stores item -> Evolved { c with heap := (c.heap.arrayPush target item).2 }
  | edit {c : Context H} (edit : Heap.Edit) : Evolved c ->
      (∀ item ∈ edit.items, c.heap.Stores item) -> Evolved { c with heap := edit.apply c.heap }
  | extend {c : Context H} (directories : List Path) (list : Option Bytes) : Evolved c ->
      Evolved ((extendSearchPath directories list : Run Failure H Unit).after c)
  | elsewhere {c d : Context H} : Evolved c -> d.globals = c.globals ->
      d.heap.texts = c.heap.texts -> d.heap.arrays = c.heap.arrays -> Evolved d

theorem Context.Evolved.grounded {c : Context H} (h : c.Evolved) : c.Grounded := by
  induction h with
  | new config errors host => exact ⟨.empty _, fun _ hhas => absurd hhas (Nat.not_lt_zero _)⟩
  | start processId _ ih => exact ih.start processId
  | define name _ hvalue ih => exact ⟨(ih.globals.definePlain name _ hvalue).1, ih.heap⟩
  | defineVariable _ hvar ih => exact ⟨ih.globals.define hvar, ih.heap⟩
  | undefine name _ ih => exact ⟨ih.globals.undefine name, ih.heap⟩
  | @link c old new _ ih =>
      by_cases hsafe : maxSafeLevel ≤ c.safeLevel
      · rw [Run.after_of_error (aliasGlobal_refused hsafe old new)]
        exact ih
      · simp only [Run.after, aliasGlobal, Run.bind_apply, Run.get_apply, if_neg hsafe]
        exact ⟨ih.globals.addAlias old new, ih.heap⟩
  | read name _ ih => exact ih.globalGet name
  | write name _ hvalue ih => exact ih.globalSet name hvalue
  | @push c target item _ htarget hitem ih =>
      have hwidens : c.heap.Widens (c.heap.arrayPush target item).2 := .push c.heap target item
      exact ⟨ih.globals.widen hwidens, ih.heap.push htarget hitem⟩
  | edit edit _ hitems ih => exact ⟨ih.globals.widen (edit.widens _), ih.heap.edit hitems⟩
  | extend directories list _ ih => exact ih.extendSearchPath directories list
  | elsewhere _ hglobals htexts harrays ih =>
      have hsize := Nat.le_of_eq (congrArg Arena.size harrays.symm)
      have hwidens := Heap.Widens.of_texts_eq htexts hsize
      refine ⟨?_, ih.heap.widen hwidens harrays⟩
      rw [hglobals]
      exact ih.globals.widen hwidens

/-! ## One call -/

def Context.itemsIn (c : Context H) (cell : Ref .global) : List Value :=
  (c.heap.items? (c.globals.cells.read cell)).getD []

def Context.textsIn (c : Context H) (cell : Ref .global) : List String :=
  (c.itemsIn cell).filterMap c.heap.asText?

def Context.directoriesIn (c : Context H) (cell : Ref .global) : List Path :=
  (c.textsIn cell).map Path.ofText

/-- A new array in the cell has new texts in front of the elements that were there. No name leads
elsewhere than before, and everything else in the heap is as it was. -/
structure Fronted (front : List String) (cell : Ref .global) (before after : Context H) :
    Prop where
  array : ∃ ref values, after.globals.cells.read cell = .array ref ∧
    ¬ before.heap.arrays.Has ref ∧
    after.heap.arrays.read ref = values ++ before.itemsIn cell ∧
    values.map after.heap.asText? = front.map some
  table : after.globals.table = before.globals.table
  widens : before.heap.Widens after.heap
  kept : ∀ ref, before.heap.arrays.Has ref ->
    after.heap.arrays.Has ref ∧ after.heap.arrays.read ref = before.heap.arrays.read ref

theorem Globals.LeadsTo.of_table_eq {globals other : Globals} {name : String} {root : Variable}
    (h : globals.LeadsTo name root) (htable : other.table = globals.table) :
    other.LeadsTo name root := by
  obtain ⟨var, hlookup, hroot⟩ := h
  refine ⟨var, ?_, hroot⟩
  rw [Globals.lookup?, htable]
  exact hlookup

section Calls

variable {c d : Context H} {original : String} {cell : Ref .global} {front : List String}

theorem extendSearchPath_plain (hpath : c.globals.LeadsTo searchPathName (.plain original cell))
    (directories : List Path) (list : Option Bytes) :
    let texts := c.heap.newTexts ((searchFront directories list).map Path.lossy)
    let made := texts.2.newArray (texts.1 ++ c.itemsIn cell)
    extendSearchPath directories list c = .ok ()
      { c with
        heap := made.2
        globals := { c.globals with cells := c.globals.cells.write cell made.1 } } := by
  intro texts made
  have hold : c.globalValue searchPathName = c.globals.cells.read cell := by
    rw [Context.globalValue, hpath.get_eq]
    rfl
  have hitems : (texts.2.items? (c.globals.cells.read cell)).getD [] = c.itemsIn cell := by
    unfold Context.itemsIn
    cases c.globals.cells.read cell with
    | array ref => simp only [Heap.items?, texts, Heap.arrays_newTexts]
    | _ => rfl
  have heq : extendSearchPath directories list c =
      replaceSearchPath made.1 { c with heap := made.2 } := by
    have hread := extendSearchPath_eq directories list c
    dsimp only at hread
    rw [hold, hitems, hpath.get_eq] at hread
    exact hread
  rw [heq, replaceSearchPath, globalSet_plain (c := { c with heap := made.2 }) hpath made.1]

theorem extendSearchPath_fronted (h : c.Grounded)
    (hpath : c.globals.LeadsTo searchPathName (.plain original cell))
    (directories : List Path) (list : Option Bytes) :
    ∃ d, extendSearchPath directories list c = .ok () d ∧
      Fronted ((searchFront directories list).map Path.lossy) cell c d := by
  have hcell : c.globals.cells.Has cell := by
    obtain ⟨var, hlookup, hroot⟩ := hpath
    exact h.globals.settled hlookup original cell hroot
  have hextend := extendSearchPath_plain hpath directories list
  dsimp only at hextend
  generalize (searchFront directories list).map Path.lossy = front at *
  obtain ⟨hstored, hread⟩ := Heap.newTexts_spec c.heap front
  have hwidens := Heap.Widens.newTexts c.heap front
  have hsame := Heap.arrays_newTexts c.heap front
  generalize c.heap.newTexts front = texts at *
  have hnew := Heap.Widens.newArray texts.2 (texts.1 ++ c.itemsIn cell)
  refine ⟨_, hextend, ⟨?_, rfl, hwidens.trans hnew, fun ref hhas => ?_⟩⟩
  · refine ⟨(texts.2.arrays.alloc (texts.1 ++ c.itemsIn cell)).1, texts.1, ?_, ?_, ?_, ?_⟩
    · exact Arena.read_write_self hcell _
    · rw [← hsame]
      exact Arena.not_has_alloc texts.2.arrays _
    · exact Arena.read_alloc_self texts.2.arrays _
    · rw [← hread]
      exact List.map_congr_left fun value hmem => hnew.asText?_eq (hstored value hmem)
  · rw [← hsame] at hhas ⊢
    exact ⟨hhas.alloc _, Arena.read_alloc_of_has hhas _⟩

namespace Fronted

variable {before after last : Context H} {more : List String}

theorem leadsTo (h : Fronted front cell before after) {name : String} {root : Variable}
    (hname : before.globals.LeadsTo name root) : after.globals.LeadsTo name root :=
  hname.of_table_eq h.table

theorem textsIn_eq (h : Fronted front cell before after) (hgrounded : before.Grounded) :
    after.textsIn cell = front ++ before.textsIn cell := by
  obtain ⟨ref, values, hvalue, _, hitems, hvalues⟩ := h.array
  have hfront : values.filterMap after.heap.asText? = front := by
    have hid := congrArg (List.filterMap id) hvalues
    rwa [List.filterMap_map, List.filterMap_map, Function.id_comp, Function.id_comp,
      List.filterMap_some] at hid
  have hrest : (before.itemsIn cell).filterMap after.heap.asText? = before.textsIn cell :=
    List.filterMap_congr fun item hmem =>
      h.widens.asText?_eq (hgrounded.heap.items (before.globals.cells.read cell) item hmem)
  rw [Context.textsIn, Context.itemsIn, hvalue, Heap.items?, Option.getD_some, hitems,
    List.filterMap_append, hfront, hrest]

end Fronted

/-- A path in front is kept as its lossy text. -/
theorem Fronted.directoriesIn_eq {before after : Context H} {paths : List Path}
    (h : Fronted (paths.map Path.lossy) cell before after) (hgrounded : before.Grounded) :
    after.directoriesIn cell = paths.map Path.kept ++ before.directoriesIn cell := by
  rw [Context.directoriesIn, h.textsIn_eq hgrounded, List.map_append, List.map_map]
  rfl

/-! ## Call after call, and the search -/

def extendAll : List (List Path × Option Bytes) -> Run Failure H Unit
  | [] => pure ()
  | (directories, list) :: calls => do
      extendSearchPath directories list
      extendAll calls

/-- What the last call added comes first, and no array that was there has changed. -/
theorem extendAll_spec (h : c.Evolved)
    (hpath : c.globals.LeadsTo searchPathName (.plain original cell))
    (calls : List (List Path × Option Bytes)) :
    ∃ d, extendAll calls c = .ok () d ∧ d.Evolved ∧ d.globals.table = c.globals.table ∧
      d.directoriesIn cell =
        (calls.reverse.flatMap fun call => (searchFront call.1 call.2).map Path.kept) ++
          c.directoriesIn cell ∧
      ∀ ref, c.heap.arrays.Has ref ->
        d.heap.arrays.Has ref ∧ d.heap.arrays.read ref = c.heap.arrays.read ref := by
  induction calls generalizing c with
  | nil => exact ⟨c, rfl, h, rfl, rfl, fun _ hhas => ⟨hhas, rfl⟩⟩
  | cons call calls ih =>
      obtain ⟨mid, hcall, hfronted⟩ := extendSearchPath_fronted h.grounded hpath call.1 call.2
      have hmid : mid.Evolved := by
        have hextend := h.extend call.1 call.2
        rwa [Run.after_of_ok hcall] at hextend
      obtain ⟨d, hcalls, hd, htable, hpaths, hkept⟩ := ih hmid (hfronted.leadsTo hpath)
      refine ⟨d, (Run.bind_of_ok hcall).trans hcalls, hd, htable.trans hfronted.table, ?_,
        fun ref hhas => ?_⟩
      · rw [hpaths, hfronted.directoriesIn_eq h.grounded, List.reverse_cons, List.flatMap_append,
          List.flatMap_singleton, List.append_assoc]
      · obtain ⟨hmidHas, hmidRead⟩ := hfronted.kept ref hhas
        obtain ⟨hlastHas, hlastRead⟩ := hkept ref hmidHas
        exact ⟨hlastHas, hlastRead.trans hmidRead⟩

theorem searchPath_plain (hpath : c.globals.LeadsTo searchPathName (.plain original cell)) :
    (searchPath : Run ε H _) c = .ok (c.directoriesIn cell) c :=
  Run.bind_of_ok (globalGet_plain hpath)

/-- Where a file is looked for: a relative path in each directory of the search path, and any path
as it stands. -/
def Context.candidates (c : Context H) (cell : Ref .global) (path : Path) : List Path :=
  (if path.isAbsolute then [] else
    (c.directoriesIn cell).map fun directory => directory.join path) ++ [path]

theorem findFile_plain (hpath : c.globals.LeadsTo searchPathName (.plain original cell))
    (found : Path -> Bool) (path : Path) :
    findFile found path c =
      match (c.candidates cell path).find? found with
      | some file => .ok file c
      | none => .error (.raised (c.attach { cause := .fileNotFound path.lossy })) c := by
  have hsearch := searchPath_plain (ε := Failure) hpath
  unfold findFile Context.candidates
  by_cases habsolute : path.isAbsolute
  · simp only [habsolute, if_true, Run.bind_apply, Run.pure_apply, List.map_nil]
    cases ([] ++ [path]).find? found with
    | some file => rfl
    | none => rfl
  · simp only [habsolute, if_false, Bool.false_eq_true, Run.bind_of_ok hsearch]
    cases ((c.directoriesIn cell).map (fun directory => directory.join path) ++ [path]).find?
      found with
    | some file => rfl
    | none => rfl

/-- A file is found when it is the first candidate that exists. -/
theorem findFile_eq_ok_iff (hpath : c.globals.LeadsTo searchPathName (.plain original cell))
    {found : Path -> Bool} {path file : Path} :
    findFile found path c = .ok file d ↔ d = c ∧ ∃ before after,
      c.candidates cell path = before ++ file :: after ∧ found file = true ∧
      ∀ earlier ∈ before, found earlier = false := by
  have hfirst : (c.candidates cell path).find? found = some file ↔ ∃ before after,
      c.candidates cell path = before ++ file :: after ∧ found file = true ∧
      ∀ earlier ∈ before, found earlier = false := by
    rw [List.find?_eq_some_iff_append]
    simp only [Bool.not_eq_true']
    constructor
    · rintro ⟨hfile, before, after, hlist, hbefore⟩
      exact ⟨before, after, hlist, hfile, hbefore⟩
    · rintro ⟨before, after, hlist, hfile, hbefore⟩
      exact ⟨hfile, before, after, hlist, hbefore⟩
  rw [← hfirst, findFile_plain hpath]
  constructor
  · intro heq
    split at heq
    · rename_i held hheld
      cases heq
      exact ⟨rfl, hheld⟩
    · cases heq
  · rintro ⟨rfl, hfile⟩
    rw [hfile]

theorem findFile_eq_error_iff (hpath : c.globals.LeadsTo searchPathName (.plain original cell))
    {found : Path -> Bool} {path : Path} {exit : Exit Failure} :
    findFile found path c = .error exit d ↔ d = c ∧
      exit = .raised (c.attach { cause := .fileNotFound path.lossy }) ∧
      ∀ candidate ∈ c.candidates cell path, found candidate = false := by
  have hnone : (c.candidates cell path).find? found = none ↔
      ∀ candidate ∈ c.candidates cell path, found candidate = false := by
    simp only [List.find?_eq_none, Bool.not_eq_true]
  rw [← hnone, findFile_plain hpath]
  constructor
  · intro heq
    split at heq
    · cases heq
    · rename_i hmissing
      cases heq
      exact ⟨rfl, rfl, hmissing⟩
  · rintro ⟨rfl, rfl, hmissing⟩
    rw [hmissing]

end Calls

/-- Each call puts the lossy texts of its directories, and then those of the non-empty entries of
its list, in front of the texts that were there; and a file is the first candidate that exists. -/
theorem search_path_order {c : Context H} {original : String} {cell : Ref .global}
    (h : c.Evolved) (hpath : c.globals.LeadsTo searchPathName (.plain original cell)) :
    (searchPath : Run Failure H _) c = .ok (c.directoriesIn cell) c ∧
    ((∀ ref, c.globals.cells.read cell ≠ .array ref) -> c.directoriesIn cell = []) ∧
    -- Only a directory that is UTF-8 is kept as it is.
    (∀ path, Path.kept path = path ↔ ∃ text, path = .ofText text) ∧
    (∀ list, Path.searchEntries list =
      ((Path.splitAt Path.listSeparator list).map Path.mk).filter
        fun entry => decide (entry.bytes ≠ [])) ∧
    -- All names of the global see the new array, and old arrays stay as they are.
    (∀ directories list, ∃ d ref, extendSearchPath directories list c = .ok () d ∧ d.Evolved ∧
      Fronted ((directories ++ (list.map Path.searchEntries).getD []).map Path.lossy) cell c d ∧
      (searchPath : Run Failure H _) d =
        .ok ((directories ++ (list.map Path.searchEntries).getD []).map Path.kept ++
          c.directoriesIn cell) d ∧
      ¬ c.heap.arrays.Has ref ∧
      ∀ name, c.globals.LeadsTo name (.plain original cell) ->
        d.globals.LeadsTo name (.plain original cell) ∧
        (globalGet name : Run Failure H _) d = .ok (.array ref) d) ∧
    (∀ calls, ∃ d, extendAll calls c = .ok () d ∧ d.Evolved ∧
      (searchPath : Run Failure H _) d = .ok
        ((calls.reverse.flatMap fun call =>
            (call.1 ++ (call.2.map Path.searchEntries).getD []).map Path.kept) ++
          c.directoriesIn cell) d ∧
      ∀ ref, c.heap.arrays.Has ref -> d.heap.arrays.read ref = c.heap.arrays.read ref) ∧
    ∀ found path,
      (∀ file d, findFile found path c = .ok file d ↔ d = c ∧ ∃ before after,
        c.candidates cell path = before ++ file :: after ∧ found file = true ∧
        ∀ earlier ∈ before, found earlier = false) ∧
      (∀ exit d, findFile found path c = .error exit d ↔ d = c ∧
        exit = .raised (c.attach { cause := .fileNotFound path.lossy }) ∧
        ∀ candidate ∈ c.candidates cell path, found candidate = false) ∧
      (c.attach { cause := .fileNotFound path.lossy }).exceptionClass = "LoadError" := by
  refine ⟨searchPath_plain hpath, fun hother => ?_, Path.ofText_lossy_iff, searchEntries_eq,
    fun directories list => ?_, fun calls => ?_,
    fun found path => ⟨fun file d => findFile_eq_ok_iff hpath,
      fun exit d => findFile_eq_error_iff hpath, ?_⟩⟩
  · have hnone : c.heap.items? (c.globals.cells.read cell) = none := by
      cases hvalue : c.globals.cells.read cell with
      | array ref => exact absurd hvalue (hother ref)
      | _ => rfl
    rw [Context.directoriesIn, Context.textsIn, Context.itemsIn, hnone, Option.getD_none,
      List.filterMap_nil, List.map_nil]
  · obtain ⟨d, hextend, hfronted⟩ := extendSearchPath_fronted h.grounded hpath directories list
    have hevolved := h.extend directories list
    rw [Run.after_of_ok hextend] at hevolved
    have hread := searchPath_plain (ε := Failure) (hfronted.leadsTo hpath)
    obtain ⟨ref, values, hvalue, hfresh, _⟩ := hfronted.array
    rw [hfronted.directoriesIn_eq h.grounded] at hread
    refine ⟨d, ref, hextend, hevolved, hfronted, hread, hfresh, fun name hname => ?_⟩
    have hlater := hfronted.leadsTo hname
    exact ⟨hlater, (globalGet_plain hlater).trans (by rw [hvalue])⟩
  · obtain ⟨d, hcalls, hevolved, htable, hpaths, hkept⟩ := extendAll_spec h hpath calls
    refine ⟨d, hcalls, hevolved, ?_, fun ref hhas => (hkept ref hhas).2⟩
    rw [searchPath_plain (hpath.of_table_eq htable), hpaths]
    rfl
  · rw [Failure.exceptionClass, Context.attach, Failure.attach_cause]
    rfl

/-- A started context whose search path was replaced by another name, with a number in the new
array, and pushed to. -/
def Context.searching : Context Bare :=
  let c := Context.bare
  let c := { c with heap := (Heap.Edit.newText "lib").apply c.heap }
  let c := { c with heap := (Heap.Edit.newArray [.int 1, .text ⟨3⟩]).apply c.heap }
  let c := (globalSet "$LOAD_PATH" (.array ⟨2⟩) : Run Failure Bare Value).after c
  { c with heap := (c.heap.arrayPush (.array ⟨2⟩) (.text ⟨0⟩)).2 }

/-- Two calls, then a search in which one of the directories has the file. -/
theorem search_path_order_replaced :
    Context.searching.Evolved ∧
    Context.searching.globals.LeadsTo "$:" (.plain "$:" ⟨0⟩) ∧
    (∃ d, extendAll [([.ofText "a"], some (Utf8.encode "b::c")), ([⟨[0x64, 0xff]⟩], none)]
        Context.searching = .ok () d ∧
      (searchPath : Run Failure Bare _) d =
        .ok (["d\uFFFD", "a", "b", "c", "lib", "."].map Path.ofText) d ∧
      d.heap.arrays.read ⟨2⟩ = [.int 1, .text ⟨3⟩, .text ⟨0⟩]) ∧
    findFile (fun path => decide (path = .ofText "./x")) (.ofText "x") Context.searching =
      .ok (.ofText "./x") Context.searching := by
  have hevolved : Context.searching.Evolved := by
    have hstart : Context.bare.Evolved :=
      .start (H := Bare) 0 (.new (H := Bare) {} .silent ())
    refine .push (.write _ (.edit _ (.edit _ hstart ?_) ?_) ?_) ?_ ?_
    · exact nofun
    · decide +kernel
    · decide +kernel
    · decide +kernel
    · decide +kernel
  have hpath : Context.searching.globals.LeadsTo "$:" (.plain "$:" ⟨0⟩) := by decide +kernel
  have hpaths : Context.searching.directoriesIn ⟨0⟩ = ["lib", "."].map Path.ofText := by
    decide +kernel
  obtain ⟨_, _, _, _, _, hcalls, hfind⟩ := search_path_order hevolved hpath
  refine ⟨hevolved, hpath, ?_, ?_⟩
  · obtain ⟨d, hextend, _, hread, hkept⟩ :=
      hcalls [([.ofText "a"], some (Utf8.encode "b::c")), ([⟨[0x64, 0xff]⟩], none)]
    have hold : Context.searching.heap.arrays.read ⟨2⟩ = [.int 1, .text ⟨3⟩, .text ⟨0⟩] := by
      decide +kernel
    have hhas : 2 < Context.searching.heap.arrays.size := by decide +kernel
    refine ⟨d, hextend, ?_, (hkept ⟨2⟩ hhas).trans hold⟩
    rw [hread, hpaths]
    have hadded : ([([.ofText "a"], some (Utf8.encode "b::c")), ([⟨[0x64, 0xff]⟩], none)] :
        List (List Path × Option Bytes)).reverse.flatMap (fun call =>
          (call.1 ++ (call.2.map Path.searchEntries).getD []).map Path.kept) =
        ["d\uFFFD", "a", "b", "c"].map Path.ofText := by decide +kernel
    rw [hadded]
    rfl
  · have hcandidates : Context.searching.candidates ⟨0⟩ (.ofText "x") =
        ["lib/x", "./x", "x"].map Path.ofText := by
      rw [Context.candidates, hpaths]
      decide +kernel
    refine ((hfind _ (.ofText "x")).1 (.ofText "./x") _).mpr
      ⟨rfl, [.ofText "lib/x"], [.ofText "x"], hcandidates, ?_, ?_⟩
    · decide +kernel
    · decide +kernel

/-- A directory that is not UTF-8 does not get on the search path, and a file in it is not found:
the text that is kept names another directory. -/
theorem search_path_order_not_utf8 :
    let directory : Path := ⟨[0x6c, 0x69, 0x62, 0xff]⟩
    let found := fun path => decide (path = directory.join (.ofText "x"))
    let d := (extendSearchPath [directory] none : Run Failure Bare Unit).after Context.bare
    Context.bare.Evolved ∧ Context.bare.globals.LeadsTo "$:" (.plain "$:" ⟨0⟩) ∧
    (searchPath : Run Failure Bare _) Context.bare = .ok [.ofText "."] Context.bare ∧
    (searchPath : Run Failure Bare _) d = .ok [.ofText "lib\uFFFD", .ofText "."] d ∧
    (searchPath : Run Failure Bare _) d ≠ .ok [directory, .ofText "."] d ∧
    found (directory.join (.ofText "x")) = true ∧
    ∃ failure, findFile found (.ofText "x") d = .error (.raised failure) d ∧
      failure.exceptionClass = "LoadError" := by
  intro directory found d
  have hevolved : Context.bare.Evolved := .start (H := Bare) 0 (.new (H := Bare) {} .silent ())
  have hpath : Context.bare.globals.LeadsTo "$:" (.plain "$:" ⟨0⟩) := by decide +kernel
  have hlater : d.globals.LeadsTo "$:" (.plain "$:" ⟨0⟩) := by decide +kernel
  have hfirst : Context.bare.directoriesIn ⟨0⟩ = [.ofText "."] := by decide +kernel
  have hpaths : d.directoriesIn ⟨0⟩ = [.ofText "lib\uFFFD", .ofText "."] := by decide +kernel
  have hread : (searchPath : Run Failure Bare _) d = .ok [.ofText "lib\uFFFD", .ofText "."] d := by
    rw [searchPath_plain hlater, hpaths]
  refine ⟨hevolved, hpath, ?_, hread, ?_, by decide +kernel, ?_⟩
  · rw [searchPath_plain hpath, hfirst]
  · rw [hread]
    intro heq
    have hother : Path.ofText "lib\uFFFD" ≠ directory := by decide +kernel
    injection heq with hlists
    exact hother (List.cons.inj hlists).1
  · have hmissing : ∀ candidate ∈ d.candidates ⟨0⟩ (.ofText "x"), found candidate = false := by
      rw [Context.candidates, hpaths]
      decide +kernel
    refine ⟨_, (findFile_eq_error_iff hlater).mpr ⟨rfl, rfl, hmissing⟩, ?_⟩
    rw [Failure.exceptionClass, Context.attach, Failure.attach_cause]
    rfl

end ExecutionContext
