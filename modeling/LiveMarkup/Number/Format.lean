import LiveMarkup.Number.Shortest

/-!
The text of a number. The digits are always the shortest ones; a format says which places
of the leading digit are written positionally, and how the rest is spelled.
-/

set_option autoImplicit false
set_option relaxedAutoImplicit false

namespace LiveMarkup

/-- The choices that a printer of numbers makes. -/
structure NumberFormat where
  /-- The lowest and highest place of the leading digit in positional form, counted as in
  `Number.leadingPlace`. -/
  lowestPlace : Int
  highestPlace : Int
  /-- Mark an exponent that is not negative with a plus sign. -/
  plusSign : Bool
  /-- Write `.0` after a whole number in positional form. -/
  keepPoint : Bool
  /-- Write the sign of a negative zero. -/
  signZero : Bool
  infinity : String

namespace NumberFormat

/-- Numbers in markup: positional from `0.000001` up to below `10 ^ 21`, else with an
exponent that carries its sign; zero has none. -/
def markup : NumberFormat where
  lowestPlace := -5
  highestPlace := 21
  plusSign := true
  keepPoint := false
  signZero := false
  infinity := "Infinity"

/-- Numbers in debugging text: positional from `0.0001` up to below `10 ^ 16`, with at least
one digit after the point; zero shows its sign. -/
def debug : NumberFormat where
  lowestPlace := -3
  highestPlace := 16
  plusSign := false
  keepPoint := true
  signZero := true
  infinity := "inf"

/-- Digits with the point before the digit number `place`, filled up with zeros. -/
def positional (f : NumberFormat) (digits : List Char) (place : Int) : List Char :=
  if place ≤ 0 then '0' :: '.' :: List.replicate (-place).toNat '0' ++ digits
  else if digits.length ≤ place.toNat then
    digits ++ List.replicate (place.toNat - digits.length) '0' ++
      (if f.keepPoint then ['.', '0'] else [])
  else digits.take place.toNat ++ '.' :: digits.drop place.toNat

/-- One digit, the rest after a point, and the power of ten of the first digit. -/
def scientific (f : NumberFormat) (digits : List Char) (place : Int) : List Char :=
  let exponent := place - 1
  let mantissa := match digits with
    | first :: rest@(_ :: _) => first :: '.' :: rest
    | short => short
  let sign := if exponent < 0 then ['-'] else if f.plusSign then ['+'] else []
  mantissa ++ 'e' :: sign ++ Number.digitsOf exponent.natAbs

/-- A positive decimal, without the zeros that end its significand. -/
def decimal (f : NumberFormat) (d : Decimal) : List Char :=
  let digits := Number.digitsOf d.significand
  let place := digits.length + d.exponent
  let digits := (digits.reverse.dropWhile (· == '0')).reverse
  if f.lowestPlace ≤ place ∧ place ≤ f.highestPlace then f.positional digits place
  else f.scientific digits place

/-- The text of a finite magnitude. -/
def magnitude (f : NumberFormat) (code : Nat) : List Char :=
  if code = 0 then if f.keepPoint then ['0', '.', '0'] else ['0']
  else f.decimal (Number.shortest code)

/-- The text of a number. -/
def print (f : NumberFormat) : Number → String
  | .nan => "NaN"
  | .infinite negative => if negative then "-" ++ f.infinity else f.infinity
  | .finite negative code =>
    let sign := if negative && (f.signZero || code.val != 0) then ['-'] else []
    String.ofList (sign ++ f.magnitude code)

end NumberFormat

/-- The text of a number in markup. -/
def Number.text (n : Number) : String := NumberFormat.markup.print n

instance : ToString Number := ⟨Number.text⟩

end LiveMarkup
