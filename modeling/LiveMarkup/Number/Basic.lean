/-!
Binary floating-point numbers with 53 significant bits. A finite magnitude is a whole
number of units of `2 ^ -1074`; the representable magnitudes are numbered by consecutive
codes, zero first, so that the next larger magnitude has the next code. Every operation
computes an exact quotient of units and rounds it once, to the nearest magnitude, a tie
going to the even code.
-/

set_option autoImplicit false
set_option relaxedAutoImplicit false

namespace LiveMarkup

namespace Number

/-- A power of two. -/
def twoTo (n : Nat) : Nat := Nat.pow 2 n

/-- A power of ten. -/
def tenTo (n : Nat) : Nat := Nat.pow 10 n

/-- How many magnitudes share an exponent: 52 bits tell them apart. -/
def runLength : Nat := twoTo 52

/-- How many finite magnitudes there are: one run for each of 2047 exponents. -/
def codes : Nat := 2047 * runLength

/-- The magnitude with the given code, in units. The magnitudes of the first two runs are one
unit apart; each further run doubles the distance. -/
def unitsOf (code : Nat) : Nat :=
  if code < runLength then code
  else (runLength + code % runLength) * twoTo (code / runLength - 1)

/-- How many units make one. -/
def unitsPerOne : Nat := twoTo 1074

end Number

/-- A number: not a number, one of two infinities, or a sign and a finite magnitude. Zero
has both signs. -/
inductive Number where
  | nan
  | infinite (negative : Bool)
  | finite (negative : Bool) (code : Fin Number.codes)
  deriving DecidableEq

namespace Number

/-- The integer nearest to `num / den`, a half going to the even neighbour. -/
def nearest (num den : Nat) : Nat :=
  if 2 * (num % den) < den ∨ 2 * (num % den) = den ∧ num / den % 2 = 0 then num / den
  else num / den + 1

/-- The code of the magnitude nearest to `num / den` units, overflow not yet seen. The
quotient is cut down to 53 bits and rounded there. As codes are consecutive, a rounding that
carries into the next run gives the first code of that run. -/
def nearestCode (num den : Nat) : Nat :=
  let shift := (num / den).log2 - 52
  shift * runLength + nearest num (den * twoTo shift)

/-- The number with this sign nearest to `num / den` units; too large is infinite. -/
def ofUnits (negative : Bool) (num den : Nat) : Number :=
  if h : nearestCode num den < codes then .finite negative ⟨nearestCode num den, h⟩
  else .infinite negative

/-- Zero with a sign. -/
def zero (negative : Bool) : Number := ofUnits negative 0 1

/-- The number nearest to a whole number. -/
def ofInt (i : Int) : Number := ofUnits (decide (i < 0)) (i.natAbs * unitsPerOne) 1

instance {n : Nat} : OfNat Number n := ⟨ofInt n⟩

instance : Inhabited Number := ⟨0⟩

/-- Neither infinite nor not a number. -/
def isFinite : Number → Bool
  | .finite .. => true
  | _ => false

/-- The sign bit. -/
def isNegative : Number → Bool
  | .nan => false
  | .infinite negative => negative
  | .finite negative _ => negative

/-- Plus or minus zero. -/
def isZero : Number → Bool
  | .finite _ code => code.val == 0
  | _ => false

/-- Equality of values: not a number differs from itself, the two zeros are equal. -/
def equal : Number → Number → Bool
  | .infinite a, .infinite b => a == b
  | .finite a x, .finite b y => x == y && (a == b || x.val == 0)
  | _, _ => false

/-- A finite number as a signed count of units; `0` for the others. -/
def units : Number → Int
  | .finite negative code => if negative then -(unitsOf code : Int) else unitsOf code
  | _ => 0

end Number

end LiveMarkup
