/-!
Finite maps that keep the order in which their keys were first inserted. Overwriting a key
keeps its place, and erasing one keeps the order of the rest.
-/

set_option autoImplicit false
set_option relaxedAutoImplicit false

namespace LiveMarkup

/-- Entries with distinct keys, in order of insertion. -/
structure OrderedMap (κ α : Type) where
  entries : List (κ × α)
  distinct : (entries.map Prod.fst).Nodup

namespace OrderedMap

variable {κ α : Type}

/-- The map without entries. -/
def empty : OrderedMap κ α := ⟨[], List.nodup_nil⟩

instance : EmptyCollection (OrderedMap κ α) := ⟨empty⟩

instance : Inhabited (OrderedMap κ α) := ⟨empty⟩

/-- The entries in order. -/
def toList (m : OrderedMap κ α) : List (κ × α) := m.entries

/-- The keys in order. -/
def keys (m : OrderedMap κ α) : List κ := m.entries.map Prod.fst

/-- How many keys there are. -/
def size (m : OrderedMap κ α) : Nat := m.entries.length

/-- Whether there is no key. -/
def isEmpty (m : OrderedMap κ α) : Bool := m.entries.isEmpty

theorem nodup_keys (m : OrderedMap κ α) : m.keys.Nodup := m.distinct

theorem length_keys (m : OrderedMap κ α) : m.keys.length = m.size := List.length_map Prod.fst

variable [DecidableEq κ]

/-- The value of the first entry with a key. -/
def lookup? (k : κ) : List (κ × α) → Option α
  | [] => none
  | (k', a) :: rest => if k' = k then some a else lookup? k rest

/-- Overwrites the first entry with a key, or appends one. -/
def put (k : κ) (a : α) : List (κ × α) → List (κ × α)
  | [] => [(k, a)]
  | (k', a') :: rest => if k' = k then (k, a) :: rest else (k', a') :: put k a rest

theorem keys_put (k : κ) (a : α) (l : List (κ × α)) :
    (put k a l).map Prod.fst =
      if k ∈ l.map Prod.fst then l.map Prod.fst else l.map Prod.fst ++ [k] := by
  induction l with
  | nil => simp [put]
  | cons e rest ih =>
    by_cases h : e.1 = k
    · simp [put, h]
    · by_cases hk : k ∈ rest.map Prod.fst
      · simp only [put, h, if_false, List.map_cons, List.mem_cons, ih, hk, or_true, if_true]
      · simp only [put, h, if_false, List.map_cons, List.mem_cons, ih, hk, or_false, Ne.symm h,
          List.cons_append]

theorem nodup_put {k : κ} {a : α} {l : List (κ × α)} (h : (l.map Prod.fst).Nodup) :
    ((put k a l).map Prod.fst).Nodup := by
  rw [keys_put]
  split
  · exact h
  · rename_i hk
    exact List.nodup_append.mpr ⟨h, List.nodup_cons.mpr ⟨List.not_mem_nil, List.nodup_nil⟩,
      fun x hx y hy hxy ↦ hk (by rw [List.mem_singleton] at hy; rw [← hy, ← hxy]; exact hx)⟩

theorem lookup?_put (k k' : κ) (a : α) (l : List (κ × α)) :
    lookup? k' (put k a l) = if k = k' then some a else lookup? k' l := by
  induction l with
  | nil => rfl
  | cons e rest ih =>
    by_cases h : e.1 = k
    · by_cases hk : k = k' <;> simp [put, lookup?, h, hk]
    · by_cases hk : k = k'
      · subst hk
        simp [put, lookup?, h, ih]
      · rw [if_neg hk, put, if_neg h, lookup?, lookup?, ih, if_neg hk]

theorem lookup?_filter_ne (k k' : κ) (l : List (κ × α)) :
    lookup? k' (l.filter fun e ↦ e.1 ≠ k) = if k = k' then none else lookup? k' l := by
  induction l with
  | nil => simp [lookup?]
  | cons e rest ih =>
    by_cases h : e.1 = k
    · by_cases hk : k = k'
      · simp_all
      · have he : e.1 ≠ k' := fun he ↦ hk (h.symm.trans he)
        simp_all [lookup?]
    · by_cases he : e.1 = k'
      · have hk : k ≠ k' := fun hk ↦ h (he.trans hk.symm)
        simp [he, hk, Ne.symm hk, lookup?]
      · simp_all [lookup?]

theorem lookup?_isSome_iff (k : κ) (l : List (κ × α)) :
    (lookup? k l).isSome ↔ k ∈ l.map Prod.fst := by
  induction l with
  | nil => simp [lookup?]
  | cons e rest ih =>
    by_cases h : e.1 = k
    · simp [lookup?, h]
    · simp only [lookup?, h, if_false, ih, List.map_cons, List.mem_cons, Ne.symm h, false_or]

/-- The value of a key. -/
def get? (m : OrderedMap κ α) (k : κ) : Option α := lookup? k m.entries

/-- Whether a key is present. -/
def contains (m : OrderedMap κ α) (k : κ) : Bool := (m.get? k).isSome

/-- Gives a key a value: in place if the key is present, else at the end. -/
def insert (m : OrderedMap κ α) (k : κ) (a : α) : OrderedMap κ α :=
  ⟨put k a m.entries, nodup_put m.distinct⟩

/-- Takes a key out. -/
def erase (m : OrderedMap κ α) (k : κ) : OrderedMap κ α :=
  ⟨m.entries.filter fun e ↦ e.1 ≠ k, m.distinct.sublist (List.filter_sublist.map _)⟩

/-! ### What the operations do to values and keys -/

theorem get?_empty (k : κ) : (empty : OrderedMap κ α).get? k = none := rfl

theorem get?_insert (m : OrderedMap κ α) (k k' : κ) (a : α) :
    (m.insert k a).get? k' = if k = k' then some a else m.get? k' :=
  lookup?_put k k' a m.entries

theorem get?_erase (m : OrderedMap κ α) (k k' : κ) :
    (m.erase k).get? k' = if k = k' then none else m.get? k' :=
  lookup?_filter_ne k k' m.entries

theorem contains_iff (m : OrderedMap κ α) (k : κ) : m.contains k = true ↔ k ∈ m.keys :=
  lookup?_isSome_iff k m.entries

/-- A key that is present keeps its place, and a new one comes last. -/
theorem keys_insert (m : OrderedMap κ α) (k : κ) (a : α) :
    (m.insert k a).keys = if k ∈ m.keys then m.keys else m.keys ++ [k] :=
  keys_put k a m.entries

/-- The keys that stay keep their order. -/
theorem keys_erase (m : OrderedMap κ α) (k : κ) : (m.erase k).keys = m.keys.filter (· ≠ k) := by
  rw [keys, keys, List.filter_map]
  rfl

/-- Inserts a list of entries one after the other. -/
def insertAll (m : OrderedMap κ α) (l : List (κ × α)) : OrderedMap κ α :=
  l.foldl (fun m e ↦ m.insert e.1 e.2) m

/-- The map made by inserting a list of entries: a repeated key keeps its first place and
takes its last value. -/
def ofList (l : List (κ × α)) : OrderedMap κ α := empty.insertAll l

end OrderedMap

end LiveMarkup
