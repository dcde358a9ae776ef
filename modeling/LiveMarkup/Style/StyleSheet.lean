import LiveMarkup.Style.Resolve

/-!
The style sheet: rules scoped to the id of one element. Rules are only ever added, so that a
later rule for an id overrides an earlier one.
-/

set_option autoImplicit false
set_option relaxedAutoImplicit false

namespace LiveMarkup

/-- A rule for the element with an id. -/
structure StyleRule where
  id : String
  declarations : List Declaration
  deriving DecidableEq

/-- A rule in its printed form. -/
def StyleRule.print (rule : StyleRule) : String :=
  "#" ++ rule.id ++ " \x7b" ++ Declaration.printAll rule.declarations ++ "\x7d"

/-- The printed rules that were added, one after the other. -/
structure StyleSheet where
  text : String := ""
  /-- How many rules were added. -/
  length : Nat := 0

namespace StyleSheet

/-- Adds one rule at the end. -/
def addRule (sheet : StyleSheet) (id : String) (style : StyleMap) : StyleSheet where
  text := sheet.text ++ StyleRule.print ⟨id, style.declarations⟩
  length := sheet.length + 1

/-- Whether no rule was added. -/
def isEmpty (sheet : StyleSheet) : Bool := sheet.length == 0

end StyleSheet

end LiveMarkup
