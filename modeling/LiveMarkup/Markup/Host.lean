import LiveMarkup.Markup.Surface

/-!
Hosts: what nodes are mounted on. A surface shows markup; a probe only reports what it is
asked to do and answers from a fixed list of element ids.
-/

set_option autoImplicit false
set_option relaxedAutoImplicit false

namespace LiveMarkup

/-- A host without markup. -/
structure Probe where
  elements : List String
  /-- Refuse every change to an element. -/
  fails : Bool

/-- Whether a probe accepts a change to the element with an id. -/
def Probe.accepts (probe : Probe) (id : String) : Bool :=
  probe.elements.contains id && !probe.fails

/-- What nodes are mounted on. -/
inductive Host where
  | surface (surface : Surface)
  | probe (probe : Probe)

instance : Inhabited Host := ⟨.surface {}⟩

/-- The surface that a host is, if it is one. -/
def Host.surface? : Host → Option Surface
  | .surface shown => some shown
  | .probe _ => none

end LiveMarkup
