import LiveMarkup.Proofs.Pages.Pressing

/-!
What a click runs. The handlers that are attached to an id when it is clicked are called one after
the other, each in the world that the one before it left (`World.Rings`); what they do to the
surface, to its listeners or to the nodes changes none of this (`World.click_eq_ok`,
`World.click_eq_error`). With a registry all of whose nodes load by default, these are the handlers
from before the load pass and after them the callbacks of the live nodes that display the id
(`World.exists_load_click`).
-/

set_option autoImplicit false
set_option relaxedAutoImplicit false

namespace LiveMarkup.World

variable {σ : Type} {client : Client σ} {w w' : World σ} {host : HostId} {surface : Surface}
  {registry : RegistryId} {label : String} {handlers : List Handler} {fault : Fault}

/-! ### Handlers that are called in turn -/

/-- Each of the handlers is called once, in the world that the one before it left. -/
inductive Rings (client : Client σ) : List Handler → World σ → World σ → Prop where
  | nil (w : World σ) : Rings client [] w w
  | cons {handler : Handler} {rest : List Handler} {w between w' : World σ}
      (hcall : client.call (.act handler) w = .ok between) (hrest : Rings client rest between w') :
      Rings client (handler :: rest) w w'

/-- Each of the handlers is called once, up to one whose call fails. -/
inductive Breaks (client : Client σ) (fault : Fault) : List Handler → World σ → Prop where
  | here {handler : Handler} {rest : List Handler} {w : World σ}
      (hcall : client.call (.act handler) w = .error fault) :
      Breaks client fault (handler :: rest) w
  | later {handler : Handler} {rest : List Handler} {w between : World σ}
      (hcall : client.call (.act handler) w = .ok between)
      (hrest : Breaks client fault rest between) : Breaks client fault (handler :: rest) w

/-- Calls the handlers in turn. -/
def ring (client : Client σ) (handlers : List Handler) (w : World σ) : Except Fault (World σ) :=
  handlers.foldlM (fun w handler ↦ client.call (.act handler) w) w

theorem ring_cons (client : Client σ) (handler : Handler) (handlers : List Handler) (w : World σ) :
    ring client (handler :: handlers) w = client.call (.act handler) w >>= ring client handlers :=
  List.foldlM_cons ..

theorem ring_eq_ok : ring client handlers w = .ok w' ↔ Rings client handlers w w' := by
  constructor
  · intro hring
    induction handlers generalizing w with
    | nil =>
      obtain rfl : w = w' := Except.ok.inj hring
      exact .nil w
    | cons handler rest ih =>
      rw [ring_cons] at hring
      obtain ⟨between, hcall, hrest⟩ := bind_eq_ok.mp hring
      exact .cons hcall (ih hrest)
  · intro hrings
    induction hrings with
    | nil => rfl
    | cons hcall _ ih =>
      rw [ring_cons, hcall]
      exact ih

theorem ring_eq_error : ring client handlers w = .error fault ↔ Breaks client fault handlers w := by
  constructor
  · intro hring
    induction handlers generalizing w with
    | nil => cases hring
    | cons handler rest ih =>
      rw [ring_cons] at hring
      cases hcall : client.call (.act handler) w with
      | error other =>
        rw [hcall] at hring
        obtain rfl : other = fault := Except.error.inj hring
        exact .here hcall
      | ok between =>
        rw [hcall] at hring
        exact .later hcall (ih hring)
  · intro hbreaks
    induction hbreaks with
    | here hcall =>
      rw [ring_cons, hcall]
      rfl
    | later hcall _ ih =>
      rw [ring_cons, hcall]
      exact ih

/-- If every call of a handler puts it down in a record, the record goes on with the handlers that
were called, in order. -/
theorem Rings.record_eq {record : World σ → List Handler}
    (hrecord : ∀ handler w w', client.call (.act handler) w = .ok w' →
      record w' = record w ++ [handler])
    (h : Rings client handlers w w') : record w' = record w ++ handlers := by
  induction h with
  | nil => rw [List.append_nil]
  | cons hcall _ ih => rw [ih, hrecord _ _ _ hcall, List.append_assoc, List.singleton_append]

/-! ### Clicks -/

theorem click_eq (client : Client σ) (w : World σ) (host : HostId) (label : String) :
    w.click client host label = do
      return ((w.clickListeners host label).length,
        ← ring client (w.clickListeners host label) w) :=
  rfl

/-- A click that succeeds has called the handlers that were attached when it started, and tells
how many there are. -/
theorem click_eq_ok {count : Nat} :
    w.click client host label = .ok (count, w') ↔
      count = (w.clickListeners host label).length ∧
        Rings client (w.clickListeners host label) w w' := by
  rw [click_eq, bind_eq_ok, ← ring_eq_ok]
  constructor
  · rintro ⟨rung, hring, hresult⟩
    obtain ⟨rfl, rfl⟩ := Prod.mk.inj (Except.ok.inj hresult)
    exact ⟨rfl, hring⟩
  · rintro ⟨rfl, hring⟩
    exact ⟨w', hring, rfl⟩

/-- A click fails if one of the handlers does. -/
theorem click_eq_error :
    w.click client host label = .error fault ↔
      Breaks client fault (w.clickListeners host label) w := by
  rw [click_eq, ← ring_eq_error]
  cases ring client (w.clickListeners host label) w with
  | error other =>
    show Except.error other = _ ↔ _
    rw [Except.error.injEq, Except.error.injEq]
  | ok w' => exact ⟨fun h ↦ (nomatch h), fun h ↦ (nomatch h)⟩

/-! ### Nodes that load by default -/

/-- The callback that a node has for clicks. -/
def onclick? (w : World σ) (n : NodeId) : Option Handler :=
  ((w.node? n).bind fun node ↦ node.attributes.get? "onclick").bind AttrValue.callback?

/-- The callbacks for clicks of the live nodes of a registry that display an id, in the order in
which the nodes were registered. -/
def onclicks (w : World σ) (registry : RegistryId) (label : String) : List Handler :=
  ((w.liveNodes registry).filter fun n ↦ w.idOf n = label).filterMap w.onclick?

theorem clickHandler?_eq_onclick? {n : NodeId}
    (hdefault : (w.node? n).map Node.kind ≠ some .tracked) : w.clickHandler? n = w.onclick? n := by
  rw [clickHandler?, onclick?]
  cases hnode : w.node? n with
  | none => rfl
  | some node =>
    have hkind : node.kind ≠ .tracked := fun hkind ↦
      hdefault (by rw [hnode, Option.map_some, hkind])
    rw [Option.bind_some, Option.bind_some, Node.clickHandler?, if_neg hkind]

theorem clickHandlers_eq_filterMap {nodes : List NodeId} (label : String)
    (hdefault : ∀ n ∈ nodes, (w.node? n).map Node.kind ≠ some .tracked) :
    w.clickHandlers nodes label =
      (nodes.filter fun n ↦ w.idOf n = label).filterMap w.onclick? := by
  induction nodes with
  | nil => rfl
  | cons n nodes ih =>
    obtain ⟨hfirst, hrest⟩ := List.forall_mem_cons.mp hdefault
    rw [clickHandlers_cons, clickHandlers_singleton, ih hrest, clickHandler?_eq_onclick? hfirst]
    by_cases hlabel : w.idOf n = label
    · rw [if_pos hlabel, List.filter_cons, decide_eq_true hlabel, if_pos rfl, List.filterMap_cons]
      cases w.onclick? n <;> rfl
    · rw [if_neg hlabel, List.filter_cons, decide_eq_false hlabel, if_neg Bool.false_ne_true,
        List.nil_append]

variable [Journal σ]

/-- A load pass over nodes that load by default never fails and leaves the markup alone. It
attaches, to each id that the surface displays, the click callbacks of the live nodes that display
it, in order. A click, then or at any other time, succeeds unless a handler fails, and has called
each handler that was attached when it started once, in the order in which they were attached,
whatever the handlers did. -/
theorem exists_load_click (client : Client σ)
    (hhost : w.hosts.get? host = some (.surface surface))
    (hdefault : ∀ n ∈ w.liveNodes registry, (w.node? n).map Node.kind ≠ some .tracked) :
    (∃ w' changed, w.load client registry host = .ok w' ∧
      w'.hosts.get? host = some (.surface changed) ∧ changed.markup = surface.markup ∧
      (∀ label, surface.hasElement label = true →
        w'.clickListeners host label = w.clickListeners host label ++ w.onclicks registry label) ∧
      ∀ label, surface.hasElement label = false →
        w'.clickListeners host label = w.clickListeners host label) ∧
    ∀ (w : World σ) (host : HostId) (label : String),
      let listeners := w.clickListeners host label
      (∀ count w', w.click client host label = .ok (count, w') ↔
        count = listeners.length ∧ Rings client listeners w w') ∧
      (∀ fault, w.click client host label = .error fault ↔ Breaks client fault listeners w) ∧
      ∀ record : World σ → List Handler,
        (∀ handler w w', client.call (.act handler) w = .ok w' →
          record w' = record w ++ [handler]) →
        ∀ count w', w.click client host label = .ok (count, w') →
          record w' = record w ++ listeners := by
  constructor
  · obtain ⟨attached, ⟨-, changed, hchanged, hmarkup, hlisteners⟩, hload⟩ :=
      exists_load client hhost registry
    refine ⟨attached.sweep, changed, hload, hchanged, hmarkup, fun label hfound ↦ ?_,
      fun label hmissing ↦ ?_⟩
    all_goals
      rw [clickListeners_eq (w := attached.sweep) hchanged, clickListeners_eq hhost, hlisteners]
    · rw [if_pos hfound, clickHandlers_eq_filterMap label hdefault, onclicks]
    · rw [if_neg (by rw [hmissing]; decide), List.append_nil]
  · intro w host label listeners
    refine ⟨fun count w' ↦ click_eq_ok, fun fault ↦ click_eq_error, ?_⟩
    intro record hrecord count w' hclick
    exact (click_eq_ok.mp hclick).2.record_eq hrecord

end LiveMarkup.World

namespace LiveMarkup

/-- The handlers that were called. -/
structure Rung where
  handlers : List Handler := []
  deriving DecidableEq

instance : Journal Rung := ⟨fun _ rung ↦ rung⟩

namespace Rung

open World

/-- A client that does nothing. -/
def idle : Client Rung where
  call _ w := .ok w
  page _ _ w := .ok (none, w)

/-- A client whose first callback attaches another one to the same element, whose second one empties
the surface, and whose others drop all nodes. -/
def caller : Client Rung where
  call
    | .act handler, w =>
      let w : World Rung := { w with client := { handlers := w.client.handlers ++ [handler] } }
      match handler with
      | 0 => (w.attachClick idle 0 "go" 9).map Prod.snd
      | 1 => .ok (w.replace 0 "")
      | _ => .ok ({ w with held := [] } : World Rung).sweep
    | .listen _ _, w => .ok w
  page _ _ w := .ok (none, w)

/-- Three nodes with the same id, one of them without a callback, and one that is not displayed. The
element that is displayed has a listener. -/
def porch : World Rung :=
  let surface : Surface :=
    { markup := "<b id=\"go\"></b>",
      listeners := (∅ : OrderedMap String (List Handler)).insert "go" [2] }
  let w := (({ client := {} } : World Rung).addHost (.surface surface)).addRegistry {}
  let w := (w.createPlain 0 "b" (.ofList [("id", .text "go"), ("onclick", .callback 0)]) []).2
  let w := (w.createPlain 0 "i" (.ofList [("id", .text "go"), ("onclick", .text "no")]) []).2
  let w := (w.createPlain 0 "u" (.ofList [("id", .text "go"), ("onclick", .callback 1)]) []).2
  let w := (w.createPlain 0 "u" (.ofList [("id", .text "no"), ("onclick", .callback 1)]) []).2
  { w with held := [.node 0, .node 1, .node 2, .node 3] }

theorem client_attachClick_idle {w w' : World Rung} {host : HostId} {label : String}
    {handler : Handler} (h : (w.attachClick idle host label handler).map Prod.snd = .ok w') :
    w'.client = w.client := by
  unfold World.attachClick at h
  split at h
  · split at h <;> exact Except.ok.inj h ▸ rfl
  · dsimp only at h
    split at h <;> exact Except.ok.inj h ▸ rfl

theorem handlers_caller {handler : Handler} {w w' : World Rung}
    (h : caller.call (.act handler) w = .ok w') :
    w'.client.handlers = w.client.handlers ++ [handler] := by
  match handler with
  | 0 => rw [client_attachClick_idle h]
  | 1 =>
    obtain rfl := Except.ok.inj h
    unfold World.replace
    split <;> rfl
  | _ + 2 =>
    obtain rfl := Except.ok.inj h
    rfl

/-- The callback that is attached meanwhile is not called. -/
theorem exists_load_click_porch :
    ∃ w w', porch.load caller 0 0 = .ok w ∧ w.nodes.size = 4 ∧
      w.clickListeners 0 "go" = [2, 0, 1] ∧ w.clickListeners 0 "no" = [] ∧
      w.click caller 0 "go" = .ok (3, w') ∧
      w'.client.handlers = [2, 0, 1] ∧ w'.clickListeners 0 "go" = [2, 0, 1, 9] ∧
      w'.displays 0 "go" = false ∧ w'.nodes.size = 0 := by
  have hhost : porch.hosts.get? 0 = some (.surface
      { markup := "<b id=\"go\"></b>",
        listeners := (∅ : OrderedMap String (List Handler)).insert "go" [2] }) := rfl
  have hdefault : ∀ n ∈ porch.liveNodes 0, (porch.node? n).map Node.kind ≠ some .tracked := by
    decide +kernel
  obtain ⟨⟨w, -, hload, -, -, hlocated, hmissing⟩, hclicks⟩ :=
    exists_load_click caller hhost hdefault
  have hlisteners : w.clickListeners 0 "go" = [2, 0, 1] := hlocated "go" (by decide +kernel)
  have hother : w.clickListeners 0 "no" = [] := hmissing "no" (by decide +kernel)
  obtain ⟨hok, -, hrecord⟩ := hclicks w 0 "go"
  have hfacts : ((porch.load caller 0 0).toOption.bind fun w ↦
      (w.click caller 0 "go").toOption.map fun result ↦
        (w.nodes.size, w.client.handlers, result.2.clickListeners 0 "go",
          result.2.displays 0 "go", result.2.nodes.size)) =
      some (4, [], [2, 0, 1, 9], false, 0) := by
    decide +kernel
  rw [hload] at hfacts
  cases hclick : w.click caller 0 "go" with
  | error fault =>
    simp [hclick, Except.toOption] at hfacts
  | ok result =>
    obtain ⟨count, w'⟩ := result
    simp only [Except.toOption, hclick, Option.bind_some, Option.map_some, Option.some_inj,
      Prod.mk.injEq] at hfacts
    obtain ⟨hsize, hnone, hmore, hempty, hdropped⟩ := hfacts
    have hcount : count = 3 := by
      rw [((hok count w').mp hclick).1, hlisteners]
      rfl
    have hcalled :=
      hrecord (fun w ↦ w.client.handlers) (fun _ _ _ ↦ handlers_caller) count w' hclick
    rw [hnone, hlisteners] at hcalled
    exact ⟨w, w', hload, hsize, hlisteners, hother, hcount ▸ hclick, hcalled, hmore, hempty,
      hdropped⟩

end Rung

end LiveMarkup
