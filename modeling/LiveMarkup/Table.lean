import LiveMarkup.IdSet

/-!
Tables that hand out row numbers. A new row has a number that no row had before, so a number
names one row for good, also after the row is gone; rows stand in order of creation.
-/

set_option autoImplicit false
set_option relaxedAutoImplicit false

namespace LiveMarkup

/-- Numbered rows in increasing order, all below the number that the next row will have. -/
structure Table (α : Type) where
  next : Nat
  rows : List (Nat × α)
  increasing : rows.Pairwise fun a b ↦ a.1 < b.1
  bounded : ∀ row ∈ rows, row.1 < next

namespace Table

variable {α : Type}

/-- The table without rows. -/
def empty : Table α := ⟨0, [], List.Pairwise.nil, fun _ h ↦ absurd h List.not_mem_nil⟩

instance : EmptyCollection (Table α) := ⟨empty⟩

instance : Inhabited (Table α) := ⟨empty⟩

/-- The row numbers in order of creation. -/
def ids (t : Table α) : List Nat := t.rows.map Prod.fst

/-- The row numbers as a set. -/
def idSet (t : Table α) : IdSet := .ofList t.ids

/-- How many rows there are. -/
def size (t : Table α) : Nat := t.rows.length

/-- The row with a number. -/
def get? (t : Table α) (i : Nat) : Option α := (t.rows.find? fun row ↦ row.1 == i).map Prod.snd

/-- Whether there is a row with this number. -/
def contains (t : Table α) (i : Nat) : Bool := t.rows.any fun row ↦ row.1 == i

/-- Adds a row under the next number. -/
def push (t : Table α) (a : α) : Table α where
  next := t.next + 1
  rows := t.rows ++ [(t.next, a)]
  increasing := List.pairwise_append.mpr ⟨t.increasing, List.pairwise_singleton _ _,
    fun row h last hl ↦ by rw [List.mem_singleton.mp hl]; exact t.bounded row h⟩
  bounded := fun row h ↦ by
    rcases List.mem_append.mp h with h | h
    · exact Nat.lt_succ_of_lt (t.bounded row h)
    · rw [List.mem_singleton.mp h]; exact Nat.lt_succ_self _

/-- Changes the row with a number, if there is one. -/
def modify (t : Table α) (i : Nat) (f : α → α) : Table α where
  next := t.next
  rows := t.rows.map fun row ↦ if row.1 = i then (row.1, f row.2) else row
  increasing := List.pairwise_map.mpr (t.increasing.imp fun {a b} h ↦ by
    by_cases ha : a.1 = i <;> by_cases hb : b.1 = i <;> simp only [ha, hb, if_true, if_false] <;>
      omega)
  bounded := fun row h ↦ by
    obtain ⟨old, hold, rfl⟩ := List.mem_map.mp h
    have := t.bounded old hold
    by_cases ho : old.1 = i <;> simp only [ho, if_true, if_false] <;> omega

/-- Keeps the rows that a test accepts. -/
def filter (t : Table α) (p : Nat → α → Bool) : Table α where
  next := t.next
  rows := t.rows.filter fun row ↦ p row.1 row.2
  increasing := t.increasing.filter _
  bounded := fun row h ↦ t.bounded row (List.mem_filter.mp h).1

/-- Removes a row. -/
def erase (t : Table α) (i : Nat) : Table α := t.filter fun j _ ↦ j != i

/-! ### What the operations do to rows and numbers -/

theorem get?_empty (i : Nat) : (empty : Table α).get? i = none := rfl

theorem contains_iff (t : Table α) (i : Nat) : t.contains i = true ↔ i ∈ t.ids := by
  simp [contains, ids]

theorem contains_idSet (t : Table α) (i : Nat) : t.idSet.contains i = t.contains i := by
  rw [Bool.eq_iff_iff, contains_iff, idSet, IdSet.contains_ofList, List.contains_iff_mem]

theorem isSome_get? (t : Table α) (i : Nat) : (t.get? i).isSome = t.contains i := by
  rw [get?, Option.isSome_map, List.isSome_find?, contains]

theorem ids_push (t : Table α) (a : α) : (t.push a).ids = t.ids ++ [t.next] := by
  simp [push, ids]

/-- A number that was not handed out yet names no row. -/
theorem next_notMem_ids (t : Table α) : t.next ∉ t.ids := fun h ↦ by
  obtain ⟨row, hrow, heq⟩ := List.mem_map.mp h
  exact absurd (t.bounded row hrow) (by rw [heq]; exact Nat.lt_irrefl _)

theorem get?_push (t : Table α) (a : α) (i : Nat) :
    (t.push a).get? i = if i = t.next then some a else t.get? i := by
  by_cases h : i = t.next
  · subst h
    have hnone : t.rows.find? (fun row ↦ row.1 == t.next) = none := by
      rw [List.find?_eq_none]
      intro row hrow
      have := t.bounded row hrow
      simp only [beq_iff_eq]
      omega
    simp [get?, push, List.find?_append, hnone]
  · simp [get?, push, List.find?_append, h, Ne.symm h]

theorem ids_modify (t : Table α) (i : Nat) (f : α → α) : (t.modify i f).ids = t.ids := by
  rw [ids, ids, modify, List.map_map]
  refine List.map_congr_left fun row _ ↦ ?_
  by_cases h : row.1 = i <;> simp [h]

theorem contains_modify (t : Table α) (i j : Nat) (f : α → α) :
    (t.modify i f).contains j = t.contains j := by
  rw [Bool.eq_iff_iff, contains_iff, contains_iff, ids_modify]

theorem get?_modify (t : Table α) (i j : Nat) (f : α → α) :
    (t.modify i f).get? j = if i = j then (t.get? j).map f else t.get? j := by
  have hkey : ((fun row : Nat × α ↦ row.1 == j) ∘
      fun row ↦ if row.1 = i then (row.1, f row.2) else row) = fun row ↦ row.1 == j := by
    funext row
    by_cases h : row.1 = i <;> simp [h]
  rw [get?, get?, modify, List.find?_map, hkey, Option.map_map]
  cases hrow : t.rows.find? fun row ↦ row.1 == j with
  | none => simp
  | some row =>
    have hj : row.1 = j := by simpa using List.find?_some hrow
    by_cases h : i = j
    · simp [hj, h]
    · simp [hj, h, Ne.symm h]

theorem modify_modify (t : Table α) (i : Nat) (f g : α → α) :
    (t.modify i f).modify i g = t.modify i (g ∘ f) := by
  have hrows : (t.modify i f).rows.map (fun row ↦ if row.1 = i then (row.1, g row.2) else row) =
      t.rows.map fun row ↦ if row.1 = i then (row.1, (g ∘ f) row.2) else row := by
    rw [modify, List.map_map]
    refine List.map_congr_left fun row _ ↦ ?_
    by_cases h : row.1 = i <;> simp [h]
  simp only [modify, mk.injEq, true_and]
  exact hrows

theorem ids_filter_sublist (t : Table α) (p : Nat → α → Bool) :
    (t.filter p).ids.Sublist t.ids :=
  List.filter_sublist.map Prod.fst

end Table

end LiveMarkup
