import LiveMarkup.Number.Decimal
import LiveMarkup.Text.Blank

/-!
Numbers in text. A numeric literal is a whole text of the shape that arithmetic accepts;
a leading number is the one written in the longest front part of a text, whatever follows it.
-/

set_option autoImplicit false
set_option relaxedAutoImplicit false

namespace LiveMarkup

/-- The value of a run of decimal digits. -/
def digitsValue (digits : List Char) : Nat :=
  digits.foldl (fun n c ↦ 10 * n + (c.toNat - '0'.toNat)) 0

/-- A numeral taken apart: its sign, the digits before and after the point, and the power of
ten that follows. -/
structure Numeral where
  negative : Bool
  whole : List Char
  fraction : List Char
  exponent : Int

namespace Numeral

/-- The magnitude that the numeral denotes. -/
def decimal (n : Numeral) : Decimal :=
  ⟨digitsValue (n.whole ++ n.fraction), n.exponent - n.fraction.length⟩

/-- The number nearest to what the numeral denotes. -/
def number (n : Numeral) : Number := n.decimal.toNumber n.negative

end Numeral

/-- A text of numeric-literal shape taken apart: a sign, a mantissa of digits and points in
any mixture, and an exponent. -/
structure Literal where
  negative : Bool
  mantissa : List Char
  exponent : Int

namespace Literal

/-- The characters of a mantissa. -/
def isMantissa (c : Char) : Bool := c.isDigit || c == '.'

/-- One or more digits and nothing else. -/
def digits? (s : List Char) : Option Nat :=
  if !s.isEmpty && s.all Char.isDigit then some (digitsValue s) else none

/-- What may follow a mantissa: nothing, or `e` and a whole number. -/
def exponent? : List Char → Option Int
  | [] => some 0
  | 'e' :: '-' :: s => (digits? s).map fun n : Nat ↦ -(n : Int)
  | 'e' :: s => (digits? s).map fun n : Nat ↦ (n : Int)
  | _ => none

/-- Takes an unsigned literal apart. -/
def unsigned? (negative : Bool) (s : List Char) : Option Literal :=
  let mantissa := s.takeWhile isMantissa
  if mantissa.isEmpty then none
  else (exponent? (s.dropWhile isMantissa)).map fun exponent ↦ ⟨negative, mantissa, exponent⟩

/-- Takes a literal apart; a text of another shape is none. -/
def ofText? : List Char → Option Literal
  | '-' :: s => unsigned? true s
  | s => unsigned? false s

/-- The numeral of a literal, if its mantissa has a digit and at most one point. -/
def numeral? (l : Literal) : Option Numeral :=
  let whole := l.mantissa.takeWhile Char.isDigit
  match l.mantissa.dropWhile Char.isDigit with
  | '.' :: fraction =>
    if fraction.all Char.isDigit && !(whole.isEmpty && fraction.isEmpty) then
      some ⟨l.negative, whole, fraction, l.exponent⟩
    else none
  | [] => if whole.isEmpty then none else some ⟨l.negative, whole, [], l.exponent⟩
  | _ => none

end Literal

/-- Whether a text has the shape of a numeric literal. -/
def isNumericLiteral (s : String) : Bool := (Literal.ofText? s.toList).isSome

/-- The number that a text counts as in arithmetic: a literal with a numeral that rounds to a
finite number. -/
def numberOfText? (s : String) : Option Number :=
  ((Literal.ofText? s.toList).bind Literal.numeral?).map Numeral.number |>.filter Number.isFinite

/-- An optional sign and what follows it. -/
def splitSign : List Char → Bool × List Char
  | '+' :: s => (false, s)
  | '-' :: s => (true, s)
  | s => (false, s)

/-- The fraction that a text starts with, and the text after it. -/
def splitFraction : List Char → List Char × List Char
  | '.' :: s => (s.takeWhile Char.isDigit, s.dropWhile Char.isDigit)
  | s => ([], s)

/-! ### Whole texts -/

/-- What may follow a mantissa in a decimal: nothing, or a letter `e` of either case, an optional
sign and digits. -/
def looseExponent? : List Char → Option Int
  | [] => some 0
  | c :: s =>
    if c == 'e' || c == 'E' then
      (Literal.digits? (splitSign s).2).map fun n : Nat ↦ if (splitSign s).1 then -(n : Int) else n
    else none

/-- The numeral that a text is written as: an optional sign, digits with a point among them or not,
and an exponent. -/
def Numeral.ofText? (s : List Char) : Option Numeral :=
  let (negative, body) := splitSign s
  let whole := body.takeWhile Char.isDigit
  let (fraction, tail) := splitFraction (body.dropWhile Char.isDigit)
  if whole.isEmpty && fraction.isEmpty then none
  else (looseExponent? tail).map fun exponent ↦ ⟨negative, whole, fraction, exponent⟩

/-- The number that a text is: behind an optional sign a name of infinity or of what is not a
number, in letters of either case, or else the number nearest to a numeral. -/
def Number.ofText? (s : List Char) : Option Number :=
  let (negative, body) := splitSign s
  let name := body.map Char.toLower
  if name == "infinity".toList || name == "inf".toList then some (.infinite negative)
  else if name == "nan".toList then some .nan
  else (Numeral.ofText? s).map Numeral.number

/-! ### Front parts -/

/-- The sign that a text starts with, if it does. -/
def frontSign : List Char → List Char
  | '+' :: _ => ['+']
  | '-' :: _ => ['-']
  | _ => []

/-- The point that a text starts with, if it does, and the digits behind it. -/
def frontPoint : List Char → List Char
  | '.' :: s => '.' :: s.takeWhile Char.isDigit
  | _ => []

/-- The digits that a text starts with, the point behind them, and the digits behind the point. -/
def frontMantissa (s : List Char) : List Char :=
  s.takeWhile Char.isDigit ++ frontPoint (s.dropWhile Char.isDigit)

/-- The exponent that a text starts with: a letter `e` of either case, an optional sign and digits;
nothing if the letter or the digits are missing. -/
def frontExponent : List Char → List Char
  | c :: s =>
    let digits := (splitSign s).2.takeWhile Char.isDigit
    if (c == 'e' || c == 'E') && !digits.isEmpty then c :: (frontSign s ++ digits) else []
  | [] => []

/-- The front part of a text that is written as a whole number, if there is one. -/
def intFront? (s : List Char) : Option (List Char) :=
  let digits := (splitSign s).2.takeWhile Char.isDigit
  if digits.isEmpty then none else some (frontSign s ++ digits)

/-- The front part of a text that is written as a decimal or as an infinity, if there is one. -/
def floatFront? (s : List Char) : Option (List Char) :=
  let body := (splitSign s).2
  if "Infinity".toList.isPrefixOf body then some (frontSign s ++ "Infinity".toList)
  else
    let (fraction, rest) := splitFraction (body.dropWhile Char.isDigit)
    if (body.takeWhile Char.isDigit).isEmpty && fraction.isEmpty then none
    else some (frontSign s ++ (frontMantissa body ++ frontExponent rest))

/-- The whole number that a text starts with, blanks skipped; not a number without one. -/
def leadingInt (s : String) : Number :=
  ((intFront? (trimLeading s.toList)).bind Number.ofText?).getD .nan

/-- The decimal number or infinity that a text starts with, blanks skipped; not a number
without one. -/
def leadingFloat (s : String) : Number :=
  ((floatFront? (trimLeading s.toList)).bind Number.ofText?).getD .nan

end LiveMarkup
