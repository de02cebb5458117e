import ExecutionContext.Table
import Mathlib.Data.List.Forall2

/-! # Tables of the same names

Binding and removing names treats the values of a table as tokens: tables that bind
the same names in the same order keep doing so, with values that stay related. A
table built by binding and removing names binds each name once, so that its sorted
names are the bound names without repetition, and their number is its size.
-/

namespace ExecutionContext

namespace Table

variable {α β : Type}

/-! ## Related tables -/

section Related

variable {R S : α -> β -> Prop}

/-- The same names in the same order, bound to related values. -/
def Rel (R : α -> β -> Prop) (t : Table α) (u : Table β) : Prop :=
  List.Forall₂ (fun e f => e.1 = f.1 ∧ R e.2 f.2) t.entries u.entries

theorem Rel.empty : Rel R {} {} := List.Forall₂.nil

theorem Rel.mono {t : Table α} {u : Table β} (h : Rel R t u) (hRS : ∀ a b, R a b -> S a b) :
    Rel S t u :=
  List.Forall₂.imp (fun _ _ hef => ⟨hef.1, hRS _ _ hef.2⟩) h

theorem Rel.get? {t : Table α} {u : Table β} (h : Rel R t u) (name : String) :
    Option.Rel R (t.get? name) (u.get? name) := by
  unfold Rel at h
  unfold Table.get?
  generalize t.entries = entries at h ⊢
  generalize u.entries = others at h ⊢
  induction h with
  | nil => exact .none
  | @cons e f rest others hef _ ih =>
      obtain ⟨key, a⟩ := e
      obtain ⟨_, b⟩ := f
      obtain ⟨rfl, hab⟩ := hef
      simp only [find]
      split
      · exact .some hab
      · exact ih

theorem Rel.insert {t : Table α} {u : Table β} (h : Rel R t u) (name : String) {a : α} {b : β}
    (hab : R a b) : Rel R (t.insert name a) (u.insert name b) := by
  unfold Rel at h
  change List.Forall₂ _ (bind t.entries name a) (bind u.entries name b)
  generalize t.entries = entries at h ⊢
  generalize u.entries = others at h ⊢
  induction h with
  | nil => exact .cons ⟨rfl, hab⟩ .nil
  | @cons e f rest others hef hrest ih =>
      obtain ⟨key, a⟩ := e
      obtain ⟨_, b⟩ := f
      obtain ⟨rfl, hold⟩ := hef
      simp only [bind]
      split
      · exact .cons ⟨rfl, hab⟩ hrest
      · exact .cons ⟨rfl, hold⟩ ih

theorem Rel.erase {t : Table α} {u : Table β} (h : Rel R t u) (name : String) :
    Rel R (t.erase name) (u.erase name) := by
  unfold Rel at h
  change List.Forall₂ _ (drop t.entries name) (drop u.entries name)
  generalize t.entries = entries at h ⊢
  generalize u.entries = others at h ⊢
  induction h with
  | nil => exact .nil
  | @cons e f rest others hef hrest ih =>
      obtain ⟨key, a⟩ := e
      obtain ⟨_, b⟩ := f
      obtain ⟨rfl, hab⟩ := hef
      simp only [drop]
      split
      · exact ih
      · exact .cons ⟨rfl, hab⟩ ih

theorem Rel.contains_eq {t : Table α} {u : Table β} (h : Rel R t u) (name : String) :
    t.contains name = u.contains name := by
  have hget := h.get? name
  unfold contains
  cases ht : t.get? name with
  | none =>
      rw [ht] at hget
      cases hu : u.get? name with
      | none => rfl
      | some b => rw [hu] at hget; cases hget
  | some a =>
      rw [ht] at hget
      cases hu : u.get? name with
      | none => rw [hu] at hget; cases hget
      | some b => rfl

theorem Rel.keys_eq {t : Table α} {u : Table β} (h : Rel R t u) : t.keys = u.keys := by
  unfold Rel at h
  unfold keys
  generalize t.entries = entries at h ⊢
  generalize u.entries = others at h ⊢
  induction h with
  | nil => rfl
  | cons hef _ ih => rw [List.map_cons, List.map_cons, hef.1, ih]

theorem Rel.names_eq {t : Table α} {u : Table β} (h : Rel R t u) : t.names = u.names := by
  rw [names, names, h.keys_eq]

theorem Rel.size_eq {t : Table α} {u : Table β} (h : Rel R t u) : t.size = u.size :=
  List.Forall₂.length_eq h

end Related

/-! ## The bound names -/

theorem mem_keys (table : Table α) (name : String) :
    name ∈ table.keys ↔ table.contains name = true := by
  unfold keys contains get?
  induction table.entries with
  | nil => simp [find]
  | cons entry rest ih =>
      simp only [List.map_cons, List.mem_cons, find]
      by_cases h : entry.1 = name
      · simp [h]
      · simp [h, Ne.symm h, ih]

theorem contains_insert (table : Table α) (name other : String) (value : α) :
    (table.insert name value).contains other = (decide (name = other) || table.contains other) := by
  unfold contains
  rw [get?_insert]
  by_cases h : name = other <;> simp [h]

theorem mem_keys_bind {entries : List (String × α)} {name other : String} {value : α}
    (h : other ∈ (bind entries name value).map Prod.fst) :
    other = name ∨ other ∈ entries.map Prod.fst := by
  have hmem := (mem_keys ⟨bind entries name value⟩ other).mp h
  have hbound := contains_insert ⟨entries⟩ name other value
  rw [show (Table.insert ⟨entries⟩ name value).contains other = true from hmem] at hbound
  by_cases hn : name = other
  · exact Or.inl hn.symm
  · refine Or.inr ((mem_keys ⟨entries⟩ other).mpr ?_)
    simpa [hn] using hbound.symm

theorem nodup_keys_insert {table : Table α} (h : table.keys.Nodup) (name : String) (value : α) :
    (table.insert name value).keys.Nodup := by
  change ((bind table.entries name value).map Prod.fst).Nodup
  unfold keys at h
  generalize table.entries = entries at h ⊢
  induction entries with
  | nil => simp [bind]
  | cons entry rest ih =>
      obtain ⟨key, old⟩ := entry
      obtain ⟨hkey, hrest⟩ := List.nodup_cons.mp h
      simp only [bind]
      split
      · rename_i hname
        rw [← hname]
        exact List.nodup_cons.mpr ⟨hkey, hrest⟩
      · rename_i hname
        refine List.nodup_cons.mpr ⟨fun hmem => ?_, ih hrest⟩
        rcases mem_keys_bind hmem with hsame | hold
        · exact hname hsame
        · exact hkey hold

theorem nodup_keys_erase {table : Table α} (h : table.keys.Nodup) (name : String) :
    (table.erase name).keys.Nodup := by
  refine h.sublist (List.Sublist.map Prod.fst ?_)
  change (drop table.entries name).Sublist table.entries
  induction table.entries with
  | nil => exact .slnil
  | cons entry rest ih =>
      obtain ⟨key, value⟩ := entry
      simp only [drop]
      split
      · exact ih.cons _
      · exact ih.cons_cons _

theorem mem_names (table : Table α) (name : String) :
    name ∈ table.names ↔ table.contains name = true := by
  rw [names, List.mem_mergeSort]
  exact mem_keys table name

theorem length_names (table : Table α) : table.names.length = table.size := by
  simp [names, keys, size]

/-- The names come in strictly ascending order when each is bound once. -/
theorem names_ascending {table : Table α} (h : table.keys.Nodup) :
    table.names.Pairwise (· < ·) := by
  have htrans : ∀ a b c : String, decide (a ≤ b) = true -> decide (b ≤ c) = true ->
      decide (a ≤ c) = true := by
    intro a b c hab hbc
    simpa using String.le_trans (by simpa using hab) (by simpa using hbc)
  have htotal : ∀ a b : String, (decide (a ≤ b) || decide (b ≤ a)) = true := by
    intro a b
    simpa using String.le_total a b
  have hle : table.names.Pairwise (fun a b => decide (a ≤ b) = true) :=
    List.pairwise_mergeSort htrans htotal table.keys
  have hne : table.names.Nodup := (List.mergeSort_perm table.keys _).nodup_iff.mpr h
  refine (hle.and hne).imp fun hab => ?_
  exact Std.lt_of_le_of_ne (by simpa using hab.1) hab.2

end Table

end ExecutionContext
