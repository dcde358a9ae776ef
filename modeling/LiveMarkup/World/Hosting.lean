import LiveMarkup.World.Basic

/-!
What hosts are asked to do. Surfaces change; probes report.
-/

set_option autoImplicit false
set_option relaxedAutoImplicit false

namespace LiveMarkup.World

variable {σ : Type} [Journal σ]

/-- Adds markup at the end of a host. -/
def append (w : World σ) (host : HostId) (markup : String) : World σ :=
  match w.host host with
  | .surface surface => w.setSurface host (surface.append markup)
  | .probe _ => w.note (.probeAppend markup)

/-- Replaces all markup of a host. -/
def replace (w : World σ) (host : HostId) (markup : String) : World σ :=
  match w.host host with
  | .surface surface => w.setSurface host (surface.replace markup)
  | .probe _ => w.note (.probeReplace markup)

/-- Asks a host for an element. -/
def hasElement (w : World σ) (host : HostId) (id : String) : Bool × World σ :=
  match w.host host with
  | .surface surface => (surface.hasElement id, w)
  | .probe probe => (probe.elements.contains id, w.note (.probeHas id))

/-- Replaces the markup inside an element of a host. -/
def setInner (w : World σ) (host : HostId) (id markup : String) :
    Except LookupError Unit × World σ :=
  match w.host host with
  | .surface surface =>
    match surface.setInner id markup with
    | .ok changed => (.ok (), w.setSurface host changed)
    | .error error => (.error error, w)
  | .probe probe =>
    (if probe.accepts id then .ok () else .error (.elementNotFound id),
      w.note (.probeSetInner id markup))

end LiveMarkup.World
