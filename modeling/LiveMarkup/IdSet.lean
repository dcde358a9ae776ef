/-!
Sets of row numbers, kept as the bits of one natural number. Whether a number is in a set is
one look at one bit, however many numbers there are (`contains_ofList`).
-/

set_option autoImplicit false
set_option relaxedAutoImplicit false

namespace LiveMarkup

/-- A set of numbers: those whose bit is set. -/
structure IdSet where
  bits : Nat

namespace IdSet

/-- The set without numbers. -/
def empty : IdSet := ⟨0⟩

/-- Whether a number is in the set. -/
def contains (s : IdSet) (i : Nat) : Bool := s.bits.testBit i

/-- Adds a number. -/
def insert (s : IdSet) (i : Nat) : IdSet := ⟨s.bits ||| 1 <<< i⟩

/-- The set of the numbers of a list. -/
def ofList (ids : List Nat) : IdSet := ids.foldl insert empty

theorem contains_insert (s : IdSet) (i j : Nat) :
    (s.insert i).contains j = (s.contains j || i == j) := by
  rw [contains, insert, Nat.testBit_or, Nat.one_shiftLeft, Nat.testBit_two_pow, contains]
  rfl

theorem contains_foldl_insert (ids : List Nat) (s : IdSet) (i : Nat) :
    (ids.foldl insert s).contains i = (s.contains i || ids.contains i) := by
  induction ids generalizing s with
  | nil => simp
  | cons j rest ih =>
    rw [List.foldl_cons, ih, contains_insert, List.contains_cons, Bool.or_assoc, Bool.beq_comm]

/-- The numbers of a list are those in its set. -/
theorem contains_ofList (ids : List Nat) (i : Nat) : (ofList ids).contains i = ids.contains i := by
  rw [ofList, contains_foldl_insert, empty, contains, Nat.zero_testBit, Bool.false_or]

end IdSet

end LiveMarkup
