import ExecutionContext.Proofs.Contract

/-! # Binding parameters by writes

The default way to bind parameters writes dynamic variables, one after the other, and
packs what is left over in an array. It keeps every contract that these writes and the
array keep; the writes may also be others, which do more than to set a variable.
-/

namespace ExecutionContext

variable {H : Host} {ε : Type}

def Pattern.names : Pattern -> List String
  | .single name => [name]
  | .multiple names splat => names ++ splat.toList

def bindNamesBy (write : String -> Value -> Run ε H Unit) :
    List String -> List Value -> Run ε H Unit
  | [], _ => return ()
  | name :: names, items => do
      write name (items.head?.getD .nil)
      bindNamesBy write names items.tail

def bindDynamicBy (write : String -> Value -> Run Failure H Unit) (pattern : Pattern)
    (value : Value) (strict : Bool) : Run Failure H Unit := do
  match pattern with
  | .single name => write name value
  | .multiple names splat =>
      let items := (← get).heap.toArgs value
      let short := decide (items.length < names.length)
      let long := splat.isNone && decide (names.length < items.length)
      if strict && (short || long) then
        Run.raise { cause := .wrongArguments names.length items.length }
      else
        bindNamesBy write names items
        match splat with
        | some rest => write rest (← newArray (items.drop names.length))
        | none => return ()

theorem bindNamesBy_setDynamic (names : List String) (items : List Value) :
    (bindNamesBy setDynamic names items : Run ε H Unit) = bindNames names items := by
  induction names generalizing items with
  | nil => rfl
  | cons name names ih => simp only [bindNamesBy, bindNames, ih]

theorem bindDynamicBy_setDynamic (pattern : Pattern) (value : Value) (strict : Bool) :
    (bindDynamicBy setDynamic pattern value strict : Run Failure H Unit) =
      bindDynamic pattern value strict := by
  cases pattern with
  | single name => rfl
  | multiple names splat =>
      cases splat with
      | none => simp only [bindDynamicBy, bindDynamic, bindNamesBy_setDynamic]
      | some rest => simp only [bindDynamicBy, bindDynamic, bindNamesBy_setDynamic]

section Keeps

variable {K : Contract H}

theorem bindNamesBy_keeps {write : String -> Value -> Run ε H Unit} {names : List String}
    (hwrite : ∀ name ∈ names, ∀ value, (write name value).Keeps K) (items : List Value) :
    (bindNamesBy write names items).Keeps K := by
  induction names generalizing items with
  | nil => exact Run.Keeps.pure ()
  | cons name names ih =>
      refine (hwrite name List.mem_cons_self _).bind fun _ => ?_
      exact ih (fun other hother => hwrite other (List.mem_cons_of_mem name hother)) items.tail

/-- Binding a pattern keeps what the writes to its names keep, and a new array. -/
theorem bindDynamicBy_keeps {write : String -> Value -> Run Failure H Unit} {pattern : Pattern}
    (hwrite : ∀ name ∈ pattern.names, ∀ value, (write name value).Keeps K)
    (harray : ∀ items, (newArray items : Run Failure H Value).Keeps K) (value : Value)
    (strict : Bool) : (bindDynamicBy write pattern value strict).Keeps K := by
  cases pattern with
  | single name => exact hwrite name (List.mem_singleton_self name) value
  | multiple names splat =>
      refine Run.Keeps.get.bind fun c => ?_
      dsimp only
      split
      · exact Run.Keeps.raise _
      · have hnames : ∀ name ∈ names, ∀ value, (write name value).Keeps K :=
          fun name hname => hwrite name (List.mem_append_left _ hname)
        refine (bindNamesBy_keeps hnames _).bind fun _ => ?_
        cases splat with
        | none => exact Run.Keeps.pure ()
        | some rest =>
            have hrest : rest ∈ (Pattern.multiple names (some rest)).names :=
              List.mem_append_right _ (List.mem_singleton_self rest)
            exact (harray _).bind fun items => hwrite rest hrest items

end Keeps

end ExecutionContext
