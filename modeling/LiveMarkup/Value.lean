import LiveMarkup.Number.Format
import LiveMarkup.Number.Literal

/-!
State values: what an observable holds and what a node keeps under a key. Text stays as it
was written; text that is a numeric literal still counts as a number in arithmetic.
-/

set_option autoImplicit false
set_option relaxedAutoImplicit false

namespace LiveMarkup

/-- A state value. -/
inductive Value where
  | number (n : Number)
  | text (s : String)
  | flag (b : Bool)
  deriving DecidableEq

namespace Value

instance : Inhabited Value := ⟨.text ""⟩

/-- The value as it is displayed. -/
def display : Value → String
  | .number n => n.text
  | .text s => s
  | .flag b => if b then "true" else "false"

/-- The number that arithmetic applies to: a finite number, or text that denotes one. -/
def number? : Value → Option Number
  | .number n => if n.isFinite then some n else none
  | .text s => numberOfText? s
  | .flag _ => none

/-- Whether arithmetic applies. -/
def isNumeric (v : Value) : Bool := v.number?.isSome

/-- Equality of values of the same kind, numbers compared by value. -/
def equal : Value → Value → Bool
  | .number a, .number b => a.equal b
  | .text a, .text b => a == b
  | .flag a, .flag b => a == b
  | _, _ => false

/-- How many characters the displayed value has. -/
def length (v : Value) : Nat := v.display.length

/-- The whole number that the displayed value starts with. -/
def toInt (v : Value) : Number := leadingInt v.display

/-- The decimal number that the displayed value starts with. -/
def toFloat (v : Value) : Number := leadingFloat v.display

end Value

end LiveMarkup
