import LiveMarkup.Attribute

/-!
Layout flags: attributes that count by being present, whatever their value, and that each
stand for one presentation class.
-/

set_option autoImplicit false
set_option relaxedAutoImplicit false

namespace LiveMarkup

/-- A layout flag. -/
inductive Flag where
  | flex
  | center
  | centerHorizontal
  | centerVertical
  deriving DecidableEq

namespace Flag

/-- The flags in the order in which their classes are listed. -/
def all : List Flag := [flex, center, centerHorizontal, centerVertical]

/-- The attribute that sets the flag. -/
def key : Flag → String
  | flex => "flex"
  | center => "center"
  | centerHorizontal => "centerHorizontal"
  | centerVertical => "centerVertical"

/-- The class that the flag stands for. -/
def className : Flag → String
  | flex => "void-flex"
  | center => "void-align-center"
  | centerHorizontal => "void-align-center-horizontal"
  | centerVertical => "void-align-center-vertical"

/-- The place of the flag in a set of bits. -/
def place : Flag → Nat
  | flex => 0
  | center => 1
  | centerHorizontal => 2
  | centerVertical => 3

end Flag

/-- A set of flags, one bit each. -/
structure Flags where
  bits : BitVec 4
  deriving DecidableEq

namespace Flags

/-- Whether a flag is in the set. -/
def has (flags : Flags) (flag : Flag) : Bool := flags.bits.getLsbD flag.place

/-- The flags whose bit is set in a number; other bits are dropped. -/
def ofNat (bits : Nat) : Flags := ⟨BitVec.ofNat 4 bits⟩

/-- The flags as a number. -/
def toNat (flags : Flags) : Nat := flags.bits.toNat

/-- The flags that a test accepts. -/
def collect (test : Flag → Bool) : Flags :=
  ⟨Flag.all.foldl
    (fun bits flag ↦ if test flag then bits ||| BitVec.twoPow 4 flag.place else bits) 0⟩

/-- The flags present among attributes. -/
def ofAttributes (attributes : Attributes) : Flags :=
  collect fun flag ↦ attributes.contains flag.key

/-- The classes of the flags in the set, in the order of `Flag.all`. -/
def classes (flags : Flags) : List String := (Flag.all.filter flags.has).map Flag.className

@[simp] theorem has_collect (test : Flag → Bool) (flag : Flag) :
    (collect test).has flag = test flag := by
  cases hflex : test .flex <;> cases hcenter : test .center <;>
    cases hhorizontal : test .centerHorizontal <;> cases hvertical : test .centerVertical <;>
    cases flag <;> simp [collect, has, Flag.all, Flag.place, hflex, hcenter, hhorizontal, hvertical]

@[simp] theorem has_ofAttributes (attributes : Attributes) (flag : Flag) :
    (ofAttributes attributes).has flag = attributes.contains flag.key := has_collect _ _

end Flags

end LiveMarkup
