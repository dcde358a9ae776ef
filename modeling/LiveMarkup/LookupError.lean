/-!
What can go wrong when something is addressed by name. All else that could fail (refreshing a
node that is not mounted, arithmetic on text, rendering an unknown page) does nothing.
-/

set_option autoImplicit false
set_option relaxedAutoImplicit false

namespace LiveMarkup

/-- A name that addresses nothing. -/
inductive LookupError where
  | elementNotFound (id : String)
  | unknownEvent (name : String)
  deriving DecidableEq

/-- The message of an error. -/
def LookupError.message : LookupError → String
  | elementNotFound id => "no host element with id `" ++ id ++ "`"
  | unknownEvent name => "unknown state event `" ++ name ++ "`"

end LiveMarkup
