/-!
Font stacks.
-/

set_option autoImplicit false
set_option relaxedAutoImplicit false

namespace LiveMarkup

/-- A named font stack. -/
structure Font where
  name : String
  value : String

/-- The stack of the fonts that systems bring along. -/
def Font.default : Font where
  name := "System-UI"
  value := "system-ui,-apple-system,\"Segoe UI\",Roboto,\"Helvetica Neue\",Arial,\"Noto Sans\"," ++
    "\"Liberation Sans\",sans-serif,\"Apple Color Emoji\",\"Segoe UI Emoji\"," ++
    "\"Segoe UI Symbol\",\"Noto Color Emoji\""

end LiveMarkup
