import LiveMarkup.Number.Basic

/-!
Decimals: a whole significand and a power of ten. A decimal is read as the nearest number.
-/

set_option autoImplicit false
set_option relaxedAutoImplicit false

namespace LiveMarkup

/-- The value `significand * 10 ^ exponent`. -/
structure Decimal where
  significand : Nat
  exponent : Int
  deriving DecidableEq, Repr

namespace Decimal

/-- An exponent that rounds to the same number and is no larger than need be: from `10 ^ 310`
up every positive significand overflows, and one below `2 ^ (k + 1)` vanishes at
`10 ^ -(k + 331)`. -/
def clampedExponent (d : Decimal) : Int :=
  max (min d.exponent 310) (-(d.significand.log2 + 331 : Int))

/-- The nearest number with this sign. -/
def toNumber (negative : Bool) (d : Decimal) : Number :=
  let exponent := d.clampedExponent
  Number.ofUnits negative (d.significand * Number.unitsPerOne * Number.tenTo exponent.toNat)
    (Number.tenTo (-exponent).toNat)

end Decimal

end LiveMarkup
