/-!
Characters that are displayed as nothing where they are not supported: the Unicode property
Default_Ignorable_Code_Point, version 17. The Hangul fillers are letters among them.
-/

set_option autoImplicit false
set_option relaxedAutoImplicit false

namespace LiveMarkup

/-- The code points with the property Default_Ignorable_Code_Point, as ranges in increasing
order. -/
def defaultIgnorableRanges : List (Nat × Nat) := [
    (173, 173), (847, 847), (1564, 1564), (4447, 4448), (6068, 6069), (6155, 6159), (8203, 8207),
    (8234, 8238), (8288, 8303), (12644, 12644), (65024, 65039), (65279, 65279), (65440, 65440),
    (65520, 65528), (113824, 113827), (119155, 119162), (917504, 921599)]

/-- The Default_Ignorable_Code_Point property. -/
def isDefaultIgnorable (c : Char) : Bool :=
  defaultIgnorableRanges.any fun range ↦ range.1 ≤ c.toNat && c.toNat ≤ range.2

end LiveMarkup
