import LiveMarkup.Number.Basic

/-!
The four operations. Each takes its operands exactly, in units, and rounds the exact
result once; what has no value is not a number.
-/

set_option autoImplicit false
set_option relaxedAutoImplicit false

namespace LiveMarkup.Number

/-- The same magnitude with the other sign. -/
def negate : Number → Number
  | .nan => .nan
  | .infinite negative => .infinite !negative
  | .finite negative code => .finite (!negative) code

/-- Sum. A sum that is exactly zero is negative only if both operands are. -/
def add : Number → Number → Number
  | .nan, _ | _, .nan => .nan
  | .infinite a, .infinite b => if a == b then .infinite a else .nan
  | .infinite a, .finite .. => .infinite a
  | .finite .., .infinite b => .infinite b
  | x@(.finite a _), y@(.finite b _) =>
    let sum := x.units + y.units
    if sum = 0 then zero (a && b) else ofUnits (decide (sum < 0)) sum.natAbs 1

/-- Difference. -/
def subtract (x y : Number) : Number := add x y.negate

/-- Product. Zero times an infinity is not a number. -/
def multiply : Number → Number → Number
  | .nan, _ | _, .nan => .nan
  | .infinite a, y => if y.isZero then .nan else .infinite (a != y.isNegative)
  | x, .infinite b => if x.isZero then .nan else .infinite (x.isNegative != b)
  | .finite a x, .finite b y => ofUnits (a != b) (unitsOf x * unitsOf y) unitsPerOne

/-- Quotient. Zero over zero and infinity over infinity are not numbers; anything else over
zero is infinite. -/
def divide : Number → Number → Number
  | .nan, _ | _, .nan => .nan
  | .infinite _, .infinite _ => .nan
  | .infinite a, .finite b _ => .infinite (a != b)
  | .finite a _, .infinite b => zero (a != b)
  | .finite a x, .finite b y =>
    if y.val = 0 then if x.val = 0 then .nan else .infinite (a != b)
    else ofUnits (a != b) (unitsOf x * unitsPerOne) (unitsOf y)

end LiveMarkup.Number
