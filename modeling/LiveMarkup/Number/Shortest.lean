import LiveMarkup.Number.Decimal

/-!
The shortest decimal of a finite magnitude: the fewest significant digits that read back
as the same number, and of the decimals with that many digits the nearest, a tie going up.
-/

set_option autoImplicit false
set_option relaxedAutoImplicit false

namespace LiveMarkup.Number

/-- The decimal digits of a natural number, most significant first. -/
def digitsOf (n : Nat) : List Char := Nat.toDigits 10 n

/-- The place of the leading digit of a positive magnitude: `k` for a magnitude from
`10 ^ (k - 1)` up to below `10 ^ k`. The binary exponent of a magnitude times `0.30103`, rounded
down, is the decimal exponent of the power of two at or below it; the magnitude itself may have
reached the next power of ten. -/
def leadingPlace (code : Nat) : Int :=
  let place := (Nat.log2 (unitsOf code) - 1074 : Int) * 30103 / 100000 + 1
  if unitsPerOne * tenTo place.toNat ≤ unitsOf code * tenTo (-place).toNat then place + 1 else place

/-- The exact decimal of a magnitude. -/
def exactDecimal (code : Nat) : Decimal := ⟨unitsOf code * Nat.pow 5 1074, -1074⟩

/-- Whether a number is finite and has the magnitude with this code. -/
def hasCode (code : Nat) : Number → Bool
  | .finite _ c => c.val == code
  | _ => false

/-- Whether the decimal is read as the magnitude with this code. -/
def readsBack (code : Nat) (d : Decimal) : Bool := (d.toNumber false).hasCode code

/-- The decimal that reads back as a magnitude, of two neighbours; if both do, the lower one
exactly if it is preferred. -/
def choose? (code : Nat) (preferLower : Bool) (lower upper : Decimal) : Option Decimal :=
  if readsBack code lower && (preferLower || !readsBack code upper) then some lower
  else if readsBack code upper then some upper
  else none

/-- Of the two multiples of `10 ^ exponent` next to a magnitude, the one that reads back as
it, if one does; of two the nearer, and the upper one on a tie. -/
def onGrid? (code : Nat) (exponent : Int) : Option Decimal :=
  let num := unitsOf code * tenTo (-exponent).toNat
  let den := unitsPerOne * tenTo exponent.toNat
  choose? code (2 * (num % den) < den) ⟨num / den, exponent⟩ ⟨num / den + 1, exponent⟩

/-- The shortest decimal that reads back as the magnitude. Seventeen digits are enough for
every magnitude; the exact decimal stands for the grids that are not tried. -/
def shortest (code : Nat) : Decimal :=
  let place := leadingPlace code
  ((List.range 17).findSome? fun (i : Nat) ↦ onGrid? code (place - (i + 1))).getD
    (exactDecimal code)

end LiveMarkup.Number
