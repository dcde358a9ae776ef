import LiveMarkup.World.Basic
import Mathlib.Data.List.Induction
import Mathlib.Data.List.Nodup

/-!
Who listens. The lists of an emitter are compared with all requests that it ever served: a
registration lasts unless its id was passed to a later removal under the same event (`lasting`).
After any sequence of requests the list of every event is what lasts, no id was given out twice, and
a removal succeeds exactly if its id is on the list of the event, from which it takes this one
registration (`Emitter.History`). Ids that were given out for the mutations of several observables,
be they the same or not, can therefore be taken back in any order, and then nobody listens who did
not before (`World.listening_history`).
-/

set_option autoImplicit false
set_option relaxedAutoImplicit false

namespace LiveMarkup

namespace Emitter

variable {α : Type}

/-! ### Requests and what lasts of them -/

/-- A request to an emitter. -/
inductive Request (α : Type) where
  | on (event : String) (listener : α)
  | off (event : String) (id : ListenerId)

/-- A request that was served, with the answer. -/
inductive Served (α : Type) where
  | on (event : String) (listener : α) (id : ListenerId)
  | off (event : String) (id : ListenerId) (removed : Bool)

/-- Serves one request. -/
def serve (emitter : Emitter α) : Request α → Served α × Emitter α
  | .on event listener =>
    let (id, emitter) := emitter.on event listener
    (.on event listener id, emitter)
  | .off event id =>
    let (removed, emitter) := emitter.off event id
    (.off event id removed, emitter)

/-- Serves requests one after the other. -/
def serveAll (emitter : Emitter α) : List (Request α) → List (Served α) × Emitter α
  | [] => ([], emitter)
  | request :: later =>
    let (served, emitter) := emitter.serve request
    let (rest, emitter) := emitter.serveAll later
    (served :: rest, emitter)

namespace Served

/-- The id that was given out. -/
def given? : Served α → Option ListenerId
  | .on _ _ id => some id
  | .off .. => none

/-- Whether an id was passed to a removal under an event. -/
def isOff (event : String) (id : ListenerId) : Served α → Bool
  | .on .. => false
  | .off event' id' _ => event' == event && id' == id

end Served

/-- The registrations under an event whose id was not passed to a later removal under that event, in
the order in which they were made. -/
def lasting (event : String) : List (Served α) → List (ListenerId × α)
  | [] => []
  | .on event' listener id :: later =>
    if event' = event ∧ later.any (Served.isOff event id) = false then
      (id, listener) :: lasting event later
    else lasting event later
  | .off .. :: later => lasting event later

/-- The ids that were given out, in order. -/
def given (served : List (Served α)) : List ListenerId := served.filterMap Served.given?

theorem serveAll_append (emitter : Emitter α) (requests more : List (Request α)) :
    emitter.serveAll (requests ++ more) =
      ((emitter.serveAll requests).1 ++ ((emitter.serveAll requests).2.serveAll more).1,
        ((emitter.serveAll requests).2.serveAll more).2) := by
  induction requests generalizing emitter with
  | nil => rfl
  | cons request requests ih => simp only [List.cons_append, serveAll, ih]

theorem lasting_append_on (event event' : String) (listener : α) (id : ListenerId)
    (served : List (Served α)) :
    lasting event (served ++ [.on event' listener id]) =
      lasting event served ++ if event' = event then [(id, listener)] else [] := by
  induction served with
  | nil => simp [lasting]
  | cons first later ih =>
    cases first with
    | off => exact ih
    | on other listener' id' =>
      have hany : (later ++ [Served.on event' listener id]).any (Served.isOff event id') =
          later.any (Served.isOff event id') := by
        rw [List.any_append]
        exact Bool.or_false _
      rw [List.cons_append, lasting, lasting, hany, ih]
      split <;> rfl

theorem lasting_append_off (event event' : String) (id : ListenerId) (removed : Bool)
    (served : List (Served α)) :
    lasting event (served ++ [.off event' id removed]) =
      if event' = event then (lasting event served).filter fun registration ↦ registration.1 != id
      else lasting event served := by
  induction served with
  | nil => simp [lasting]
  | cons first later ih =>
    cases first with
    | off => exact ih
    | on other listener id' =>
      have hany : (later ++ [Served.off event' id removed]).any (Served.isOff event id') =
          (later.any (Served.isOff event id') || (event' == event && id == id')) := by
        rw [List.any_append]
        exact congrArg _ (Bool.or_false _)
      rw [List.cons_append, lasting, lasting, hany, ih]
      by_cases hevent : event' = event
      · subst hevent
        rw [beq_self_eq_true, Bool.true_and, if_pos rfl, if_pos rfl]
        by_cases hid : id = id'
        · -- the registration that is removed lasts no longer
          rw [hid, beq_self_eq_true, Bool.or_true, if_neg fun h ↦ nomatch h.2]
          split
          · rw [List.filter_cons_of_neg (by simp)]
          · rfl
        · rw [beq_false_of_ne hid, Bool.or_false]
          split
          · rw [List.filter_cons_of_pos (by simpa using Ne.symm hid)]
          · rfl
      · rw [beq_false_of_ne hevent, Bool.false_and, Bool.or_false, if_neg hevent, if_neg hevent]

/-- What lasts was given out, and in the same order. -/
theorem lasting_sublist_given (event : String) (served : List (Served α)) :
    ((lasting event served).map Prod.fst).Sublist (given served) := by
  induction served with
  | nil => exact List.Sublist.refl _
  | cons first later ih =>
    cases first with
    | off => exact ih
    | on event' listener id =>
      show List.Sublist _ (id :: given later)
      rw [lasting]
      split
      · exact ih.cons_cons id
      · exact ih.cons id

/-! ### Removals -/

theorem isRegistered_iff {emitter : Emitter α} {event : String} {id : ListenerId} :
    emitter.isRegistered event id = true ↔
      ∃ listener, (id, listener) ∈ emitter.registrations event := by
  rw [isRegistered, List.any_eq_true]
  constructor
  · rintro ⟨⟨id', listener⟩, hmem, hid⟩
    obtain rfl : id' = id := beq_iff_eq.mp hid
    exact ⟨listener, hmem⟩
  · rintro ⟨listener, hmem⟩
    exact ⟨_, hmem, beq_self_eq_true id⟩

/-- A removal succeeds exactly if its id is registered. -/
theorem off_eq_isRegistered (emitter : Emitter α) (event : String) (id : ListenerId) :
    (emitter.off event id).1 = emitter.isRegistered event id := by
  rw [Bool.eq_iff_iff]
  show ((emitter.remove event id).count event != emitter.count event) = true ↔ _
  rw [bne_iff_ne, count, count, registrations_remove, if_pos rfl, Ne,
    List.length_filter_eq_length_iff, isRegistered, List.any_eq_true]
  simp

theorem nextId_remove (emitter : Emitter α) (event : String) (id : ListenerId) :
    (emitter.remove event id).nextId = emitter.nextId := by
  rw [remove]
  split <;> rfl

theorem eraseP_eq_filter {list : List (ListenerId × α)} (h : (list.map Prod.fst).Nodup)
    (id : ListenerId) :
    list.eraseP (fun registration ↦ registration.1 == id) =
      list.filter fun registration ↦ registration.1 != id := by
  induction list with
  | nil => rfl
  | cons first rest ih =>
    obtain ⟨hfirst, hrest⟩ := List.nodup_cons.mp h
    by_cases hid : first.1 = id
    · have hkept : ∀ registration ∈ rest, (registration.1 != id) = true := by
        intro registration hmem
        refine bne_iff_ne.mpr fun hsame ↦ hfirst ?_
        exact List.mem_map.mpr ⟨registration, hmem, hsame.trans hid.symm⟩
      rw [List.eraseP_cons_of_pos (by simpa using hid),
        List.filter_cons_of_neg (by simpa using hid), List.filter_eq_self.mpr hkept]
    · rw [List.eraseP_cons_of_neg (by simpa using hid),
        List.filter_cons_of_pos (by simpa using hid), ih hrest]

/-- If no id is registered twice, a removal takes one registration and keeps all others. -/
theorem registrations_off {emitter : Emitter α} {event : String}
    (hdistinct : ((emitter.registrations event).map Prod.fst).Nodup) (id : ListenerId)
    (other : String) :
    (emitter.off event id).2.registrations other =
      if event = other then
        (emitter.registrations event).eraseP fun registration ↦ registration.1 == id
      else emitter.registrations other := by
  rw [eraseP_eq_filter hdistinct]
  exact registrations_remove emitter event other id

/-! ### Histories -/

/-- An emitter has served requests: the lists of all events are what lasts, and ids are given out in
increasing order. -/
structure History (served : List (Served α)) (emitter : Emitter α) : Prop where
  registrations : ∀ event, emitter.registrations event = lasting event served
  bounded : ∀ id ∈ given served, id < emitter.nextId
  distinct : (given served).Nodup

namespace History

variable {served : List (Served α)} {emitter : Emitter α}

theorem empty : History [] ({} : Emitter α) where
  registrations := fun _ ↦ rfl
  bounded := fun _ h ↦ absurd h List.not_mem_nil
  distinct := List.nodup_nil

theorem on (h : History served emitter) (event : String) (listener : α) :
    History (served ++ [.on event listener emitter.nextId]) (emitter.on event listener).2 := by
  have hgiven : given (served ++ [.on event listener emitter.nextId]) =
      given served ++ [emitter.nextId] := by
    rw [given, List.filterMap_append]
    rfl
  refine ⟨fun event' ↦ ?_, fun id hid ↦ ?_, ?_⟩
  · show (emitter.register event listener).registrations event' = _
    rw [registrations_register, lasting_append_on]
    by_cases hevent : event = event'
    · rw [if_pos hevent, if_pos hevent, hevent, h.registrations]
    · rw [if_neg hevent, if_neg hevent, h.registrations, List.append_nil]
  · rw [hgiven] at hid
    show id < emitter.nextId + 1
    rcases List.mem_append.mp hid with hold | hnew
    · exact Nat.lt_succ_of_lt (h.bounded id hold)
    · rw [List.mem_singleton.mp hnew]
      exact Nat.lt_succ_self _
  · rw [hgiven, ← List.concat_eq_append]
    exact h.distinct.concat fun hold ↦ Nat.lt_irrefl _ (h.bounded _ hold)

theorem off (h : History served emitter) (event : String) (id : ListenerId) (removed : Bool) :
    History (served ++ [.off event id removed]) (emitter.off event id).2 := by
  have hgiven : given (served ++ [.off event id removed]) = given served := by
    rw [given, List.filterMap_append]
    exact List.append_nil _
  refine ⟨fun event' ↦ ?_, fun id' hid ↦ ?_, hgiven ▸ h.distinct⟩
  · show (emitter.remove event id).registrations event' = _
    rw [registrations_remove, lasting_append_off]
    by_cases hevent : event = event'
    · rw [if_pos hevent, if_pos hevent, hevent, h.registrations]
    · rw [if_neg hevent, if_neg hevent, h.registrations]
  · rw [hgiven] at hid
    show id' < (emitter.remove event id).nextId
    rw [nextId_remove]
    exact h.bounded id' hid

theorem serve (h : History served emitter) (request : Request α) :
    History (served ++ [(emitter.serve request).1]) (emitter.serve request).2 := by
  cases request with
  | on event listener => exact h.on event listener
  | off event id => exact h.off event id _

/-- Whatever an emitter is asked for, its lists are what lasts. -/
theorem serveAll (requests : List (Request α)) :
    History (({} : Emitter α).serveAll requests).1 (({} : Emitter α).serveAll requests).2 := by
  induction requests using List.reverseRecOn with
  | nil => exact .empty
  | append_singleton requests request ih =>
    rw [serveAll_append]
    exact ih.serve request

theorem nodup_registrations (h : History served emitter) (event : String) :
    ((emitter.registrations event).map Prod.fst).Nodup := by
  rw [h.registrations]
  exact h.distinct.sublist (lasting_sublist_given event served)

/-- An id that is registered was given out. -/
theorem lt_nextId (h : History served emitter) {event : String} {registration : ListenerId × α}
    (hmem : registration ∈ emitter.registrations event) : registration.1 < emitter.nextId := by
  rw [h.registrations] at hmem
  exact h.bounded _ ((lasting_sublist_given event served).mem (List.mem_map_of_mem hmem))

end History

/-! ### What requests do to every list -/

theorem registrations_on (emitter : Emitter α) (event event' : String) (listener : α) :
    (emitter.on event listener).2.registrations event' = emitter.registrations event' ++
      if event = event' then [(emitter.nextId, listener)] else [] := by
  show (emitter.register event listener).registrations event' = _
  rw [registrations_register]
  by_cases hevent : event = event'
  · rw [if_pos hevent, if_pos hevent, hevent]
  · rw [if_neg hevent, if_neg hevent, List.append_nil]

end Emitter

/-! ### Listening to observables -/

namespace World

variable {σ : Type} {w : World σ}

/-- Removes listeners of mutations, each from its observable. -/
def unlistenAll (w : World σ) : List (ObservableId × ListenerId) → List Bool × World σ
  | [] => ([], w)
  | (observable, id) :: rest =>
    let (removed, w) := w.unlisten observable .mutate id
    let (answers, w) := w.unlistenAll rest
    (removed :: answers, w)

/-- The registrations under an event of an observable. -/
def registrations (w : World σ) (observable : ObservableId) (event : String) :
    List (ListenerId × Handler) :=
  (w.observable observable).emitter.registrations event

theorem observable_modifyObservable_of_contains {observable other : ObservableId}
    (hknown : w.observables.contains observable = true) (f : Observable → Observable) :
    (w.modifyObservable observable f).observable other =
      if observable = other then f (w.observable other) else w.observable other := by
  show ((w.observables.modify observable f).get? other).getD default = _
  rw [Table.get?_modify]
  by_cases hsame : observable = other
  · rw [← Table.isSome_get?] at hknown
    obtain ⟨value, hvalue⟩ := Option.isSome_iff_exists.mp hknown
    rw [if_pos hsame, if_pos hsame, World.observable, ← hsame, hvalue]
    rfl
  · rw [if_neg hsame, if_neg hsame, World.observable]

/-- The id that an observable gives out next. -/
def nextListener (w : World σ) (observable : ObservableId) : ListenerId :=
  (w.observable observable).emitter.nextId

section Single

variable {observable : ObservableId}

theorem registrations_listen (hknown : w.observables.contains observable = true) (event : Event)
    (listener : Handler) (other : ObservableId) (name : String) :
    (w.listen observable event listener).2.registrations other name =
      w.registrations other name ++ if observable = other ∧ event.name = name then
        [(w.nextListener observable, listener)] else [] := by
  rw [registrations, listen, observable_modifyObservable_of_contains hknown]
  by_cases hsame : observable = other
  · rw [if_pos hsame, hsame]
    simp only [true_and]
    exact Emitter.registrations_on _ event.name name listener
  · rw [if_neg hsame, if_neg fun h ↦ hsame h.1, List.append_nil]
    rfl

theorem nextListener_listen (hknown : w.observables.contains observable = true) (event : Event)
    (listener : Handler) (other : ObservableId) :
    (w.listen observable event listener).2.nextListener other =
      w.nextListener other + if observable = other then 1 else 0 := by
  rw [nextListener, listen, observable_modifyObservable_of_contains hknown]
  split <;> rfl

theorem unlisten_fst {event : Event} {id : ListenerId} :
    (w.unlisten observable event id).1 = true ↔
      ∃ listener, (id, listener) ∈ w.registrations observable event.name := by
  rw [unlisten, Emitter.off_eq_isRegistered, Emitter.isRegistered_iff, registrations]

theorem registrations_unlisten (hknown : w.observables.contains observable = true) (event : Event)
    (id : ListenerId) (other : ObservableId) (name : String) :
    (w.unlisten observable event id).2.registrations other name =
      if observable = other ∧ event.name = name then
        (w.registrations other name).filter fun registration ↦ registration.1 != id
      else w.registrations other name := by
  rw [registrations, unlisten, observable_modifyObservable_of_contains hknown]
  by_cases hsame : observable = other
  · rw [if_pos hsame]
    simp only [hsame, true_and]
    show ((w.observable other).emitter.remove event.name id).registrations name = _
    rw [Emitter.registrations_remove]
    by_cases hname : event.name = name
    · rw [if_pos hname, if_pos hname, hname, registrations]
    · rw [if_neg hname, if_neg hname, registrations]
  · rw [if_neg hsame, if_neg fun h ↦ hsame h.1, registrations]

end Single

/-! ### Listening to several observables -/

section Several

variable {listener : Handler} {observables : List ObservableId}

/-- The observables and the ids that they gave out. -/
def tickets (w : World σ) (listener : Handler) (observables : List ObservableId) :
    List (ObservableId × ListenerId) :=
  observables.zip (w.listenToAll listener observables).1

theorem tickets_cons (observable : ObservableId) :
    w.tickets listener (observable :: observables) =
      (observable, w.nextListener observable) ::
        (w.listen observable .mutate listener).2.tickets listener observables := rfl

theorem length_listenToAll (w : World σ) (listener : Handler) (observables : List ObservableId) :
    (w.listenToAll listener observables).1.length = observables.length := by
  induction observables generalizing w with
  | nil => rfl
  | cons observable rest ih => exact congrArg (· + 1) (ih _)

theorem contains_listenToAll (w : World σ) (listener : Handler) (observables : List ObservableId)
    (other : ObservableId) :
    (w.listenToAll listener observables).2.observables.contains other =
      w.observables.contains other := by
  induction observables generalizing w with
  | nil => rfl
  | cons observable rest ih => exact (ih _).trans (Table.contains_modify ..)

/-- The lists of mutations grow by the listener, once for every occurrence of the observable. -/
theorem registrations_listenToAll (listener : Handler)
    (hknown : ∀ o ∈ observables, w.observables.contains o = true) (other : ObservableId)
    (name : String) :
    (w.listenToAll listener observables).2.registrations other name =
      w.registrations other name ++ if Event.mutate.name = name then
        ((w.tickets listener observables).filter fun ticket ↦ ticket.1 == other).map
          fun ticket ↦ (ticket.2, listener)
      else [] := by
  induction observables generalizing w with
  | nil =>
    show w.registrations other name = _
    rw [tickets, List.zip_nil_left, List.filter_nil, List.map_nil, ite_self, List.append_nil]
  | cons observable rest ih =>
    have hfirst := hknown observable List.mem_cons_self
    show ((w.listen observable .mutate listener).2.listenToAll listener rest).2.registrations
      other name = _
    rw [ih fun o ho ↦ (Table.contains_modify ..).trans (hknown o (List.mem_cons_of_mem _ ho)),
      registrations_listen hfirst, tickets_cons, List.append_assoc]
    by_cases hname : Event.mutate.name = name
    · by_cases hsame : observable = other
      · simp [hname, hsame]
      · simp [hname, hsame]
    · simp [hname]

/-- The ids that are given out are new, and each is given out once by an observable. -/
theorem nodup_tickets (listener : Handler)
    (hknown : ∀ o ∈ observables, w.observables.contains o = true) :
    (∀ ticket ∈ w.tickets listener observables, w.nextListener ticket.1 ≤ ticket.2) ∧
      (w.tickets listener observables).Nodup := by
  induction observables generalizing w with
  | nil => exact ⟨fun _ h ↦ absurd h List.not_mem_nil, List.nodup_nil⟩
  | cons observable rest ih =>
    have hfirst := hknown observable List.mem_cons_self
    obtain ⟨hnew, hdistinct⟩ := ih (w := (w.listen observable .mutate listener).2)
      fun o ho ↦ (Table.contains_modify ..).trans (hknown o (List.mem_cons_of_mem _ ho))
    simp only [nextListener_listen hfirst] at hnew
    rw [tickets_cons]
    constructor
    · intro ticket hticket
      rcases List.mem_cons.mp hticket with rfl | hrest
      · exact Nat.le_refl _
      · exact Nat.le_of_add_right_le (hnew ticket hrest)
    · refine List.nodup_cons.mpr ⟨fun hagain ↦ ?_, hdistinct⟩
      have hlater := hnew _ hagain
      rw [if_pos rfl] at hlater
      exact Nat.not_succ_le_self _ hlater

/-- Every id that was given out is registered. -/
theorem registered_of_mem_tickets (hknown : ∀ o ∈ observables, w.observables.contains o = true)
    {ticket : ObservableId × ListenerId} (hticket : ticket ∈ w.tickets listener observables) :
    (ticket.2, listener) ∈
      (w.listenToAll listener observables).2.registrations ticket.1 Event.mutate.name := by
  rw [registrations_listenToAll listener hknown, if_pos rfl]
  refine List.mem_append_right _ (List.mem_map.mpr ⟨ticket, ?_, rfl⟩)
  exact List.mem_filter.mpr ⟨hticket, beq_self_eq_true _⟩

/-- A removal takes the registrations of one observable under one id, and leaves all others. -/
theorem registered_unlisten {ticket removed : ObservableId × ListenerId}
    (hknown : w.observables.contains removed.1 = true) (hne : ticket ≠ removed) {event : Event}
    (hregistered : (ticket.2, listener) ∈ w.registrations ticket.1 event.name) :
    (ticket.2, listener) ∈
      (w.unlisten removed.1 event removed.2).2.registrations ticket.1 event.name := by
  rw [registrations_unlisten hknown]
  split
  · rename_i hsame
    exact List.mem_filter.mpr
      ⟨hregistered, bne_iff_ne.mpr fun hid ↦ hne (Prod.ext hsame.1.symm hid)⟩
  · exact hregistered

/-- Several removals take the registrations under their ids, and leave all others. -/
theorem registrations_unlistenAll {order : List (ObservableId × ListenerId)}
    (hknown : ∀ ticket ∈ order, w.observables.contains ticket.1 = true) (other : ObservableId)
    (name : String) :
    (w.unlistenAll order).2.registrations other name =
      if Event.mutate.name = name then
        (w.registrations other name).filter fun registration ↦
          !order.contains (other, registration.1)
      else w.registrations other name := by
  induction order generalizing w with
  | nil =>
    show w.registrations other name = _
    simp
  | cons ticket rest ih =>
    obtain ⟨observable, id⟩ := ticket
    obtain ⟨hfirst, hrest⟩ := List.forall_mem_cons.mp hknown
    show ((w.unlisten observable .mutate id).2.unlistenAll rest).2.registrations other name = _
    rw [ih fun ticket hticket ↦ (Table.contains_modify ..).trans (hrest ticket hticket),
      registrations_unlisten hfirst]
    by_cases hname : Event.mutate.name = name
    · by_cases hsame : observable = other
      · rw [if_pos hname, if_pos hname, if_pos ⟨hsame, hname⟩, List.filter_filter, hsame]
        refine List.filter_congr fun registration _ ↦ ?_
        rw [Bool.eq_iff_iff]
        simp [and_comm]
      · rw [if_pos hname, if_pos hname, if_neg fun h ↦ hsame h.1]
        refine List.filter_congr fun registration _ ↦ ?_
        simp [Ne.symm hsame]
    · rw [if_neg hname, if_neg hname, if_neg fun h ↦ hname h.2]

/-- If several ids are registered, all of them can be removed. -/
theorem unlistenAll_fst {order : List (ObservableId × ListenerId)}
    (hknown : ∀ ticket ∈ order, w.observables.contains ticket.1 = true) (hdistinct : order.Nodup)
    (hregistered : ∀ ticket ∈ order,
      (ticket.2, listener) ∈ w.registrations ticket.1 Event.mutate.name) :
    (w.unlistenAll order).1 = List.replicate order.length true := by
  induction order generalizing w with
  | nil => rfl
  | cons ticket rest ih =>
    obtain ⟨hfirst, hrest⟩ := List.forall_mem_cons.mp hknown
    obtain ⟨hremoved, hregistered⟩ := List.forall_mem_cons.mp hregistered
    obtain ⟨hnotMem, hdistinct⟩ := List.nodup_cons.mp hdistinct
    have hanswer : (w.unlisten ticket.1 .mutate ticket.2).1 = true :=
      unlisten_fst.mpr ⟨listener, hremoved⟩
    have hanswers := ih (w := (w.unlisten ticket.1 .mutate ticket.2).2)
      (fun later hlater ↦ (Table.contains_modify ..).trans (hrest later hlater)) hdistinct
      fun later hlater ↦ registered_unlisten hfirst
        (fun heq ↦ hnotMem (heq ▸ hlater)) (hregistered later hlater)
    exact congrArg₂ List.cons hanswer hanswers

/-- What was listened to can be unlistened to in any order, and then nobody listens who did not
before. -/
theorem unlistenAll_tickets (hknown : ∀ o ∈ observables, w.observables.contains o = true)
    (hhistory : ∀ o ∈ observables, ∃ served, Emitter.History served (w.observable o).emitter)
    {order : List (ObservableId × ListenerId)}
    (horder : order.Perm (w.tickets listener observables)) :
    ((w.listenToAll listener observables).2.unlistenAll order).1 =
        List.replicate observables.length true ∧
      ∀ o event,
        ((w.listenToAll listener observables).2.unlistenAll order).2.registrations o event =
          w.registrations o event := by
  obtain ⟨hnew, hdistinct⟩ := nodup_tickets listener hknown
  have hmem (ticket : ObservableId × ListenerId) (hticket : ticket ∈ order) :
      ticket ∈ w.tickets listener observables := horder.subset hticket
  have hgave (ticket : ObservableId × ListenerId) (hticket : ticket ∈ order) :
      ticket.1 ∈ observables := (List.of_mem_zip (hmem ticket hticket)).1
  have hstill (ticket : ObservableId × ListenerId) (hticket : ticket ∈ order) :
      (w.listenToAll listener observables).2.observables.contains ticket.1 = true :=
    (contains_listenToAll ..).trans (hknown _ (hgave ticket hticket))
  constructor
  · rw [unlistenAll_fst hstill (horder.nodup_iff.mpr hdistinct) fun ticket hticket ↦
      registered_of_mem_tickets hknown (hmem ticket hticket), horder.length_eq, tickets,
      List.length_zip, length_listenToAll, Nat.min_self]
  · intro o event
    rw [registrations_unlistenAll hstill, registrations_listenToAll listener hknown]
    by_cases hevent : Event.mutate.name = event
    · rw [if_pos hevent, if_pos hevent, List.filter_append, List.filter_eq_self.mpr,
        List.filter_eq_nil_iff.mpr, List.append_nil]
      · -- every id that was given out is taken back
        intro registration hregistration
        obtain ⟨ticket, hticket, rfl⟩ := List.mem_map.mp hregistration
        obtain ⟨hgiven, hsame⟩ := List.mem_filter.mp hticket
        obtain rfl : ticket.1 = o := beq_iff_eq.mp hsame
        have htaken : order.contains ticket = true :=
          List.contains_iff_mem.mpr (horder.mem_iff.mpr hgiven)
        show ¬(!order.contains ticket) = true
        rw [htaken]
        decide
      · -- the ids from before are older than all of them
        intro registration hregistration
        rw [Bool.not_eq_true', ← Bool.not_eq_true, List.contains_iff_mem]
        intro hticket
        obtain ⟨served, hserved⟩ := hhistory o (hgave _ hticket)
        have hold : registration.1 < w.nextListener o := hserved.lt_nextId hregistration
        exact Nat.lt_irrefl _ (Nat.lt_of_lt_of_le hold (hnew _ (hmem _ hticket)))
    · rw [if_neg hevent, if_neg hevent, List.append_nil]

end Several

/-- Whatever an emitter was asked for, the list of an event is what lasts of the registrations, no
id was given out twice, and a removal succeeds exactly if its id is on the list of the event, from
which it takes this registration; no other list changes. So if one listener is registered for the
mutations of several observables, be they the same or not, all ids that are given out can be taken
back in any order, each with success, and then every list is what it was. -/
theorem listening_history :
    (∀ (α : Type) (requests : List (Emitter.Request α)),
      let served := (({} : Emitter α).serveAll requests).1
      let emitter := (({} : Emitter α).serveAll requests).2
      (∀ event, emitter.registrations event = Emitter.lasting event served) ∧
        (Emitter.given served).Nodup ∧
        ∀ event id,
          ((emitter.off event id).1 = true ↔
            ∃ listener, (id, listener) ∈ emitter.registrations event) ∧
          ∀ other, (emitter.off event id).2.registrations other =
            if event = other then
              (emitter.registrations event).eraseP fun registration ↦ registration.1 == id
            else emitter.registrations other) ∧
      ∀ (σ : Type) (w : World σ) (listener : Handler) (observables : List ObservableId),
        (∀ o ∈ observables, w.observables.contains o = true ∧
          ∃ requests, (w.observable o).emitter = (({} : Emitter Handler).serveAll requests).2) →
        let ids := (w.listenToAll listener observables).1
        let listened := (w.listenToAll listener observables).2
        ids.length = observables.length ∧
          ∀ order, order.Perm (observables.zip ids) →
            (listened.unlistenAll order).1 = List.replicate observables.length true ∧
              ∀ o event, (listened.unlistenAll order).2.registrations o event =
                w.registrations o event := by
  constructor
  · intro α requests
    have h := Emitter.History.serveAll requests
    refine ⟨h.registrations, h.distinct, fun event id ↦ ⟨?_, ?_⟩⟩
    · rw [Emitter.off_eq_isRegistered, Emitter.isRegistered_iff]
    · exact Emitter.registrations_off (h.nodup_registrations event) id
  · intro σ w listener observables hobservables
    refine ⟨length_listenToAll w listener observables, fun order horder ↦ ?_⟩
    refine unlistenAll_tickets (fun o ho ↦ (hobservables o ho).1) (fun o ho ↦ ?_) horder
    obtain ⟨requests, hrequests⟩ := (hobservables o ho).2
    exact ⟨_, hrequests ▸ Emitter.History.serveAll requests⟩

/-- Two observables, the second of which has been listened to before. -/
def listenedWorld : World Unit :=
  (({ client := () } : World Unit).addObservable { value := .number 0 }).addObservable
    { value := .text "x",
      emitter := (({} : Emitter Handler).serveAll
        [.on "mutate" 7, .on "add" 3, .off "mutate" 0, .on "mutate" 5]).2 }

theorem listening_history_listenedWorld :
    (listenedWorld.listenToAll 9 [1, 0, 1]).1 = [3, 0, 4] ∧
      (listenedWorld.listenToAll 9 [1, 0, 1]).2.registrations 1 "mutate" =
        [(2, 5), (3, 9), (4, 9)] ∧
      ((listenedWorld.listenToAll 9 [1, 0, 1]).2.unlistenAll [(1, 4), (1, 3), (0, 0)]).1 =
        [true, true, true] ∧
      ((listenedWorld.listenToAll 9 [1, 0, 1]).2.unlistenAll
        [(1, 4), (1, 3), (0, 0)]).2.registrations 1 "mutate" = [(2, 5)] := by
  have hobservables : ∀ o ∈ [1, 0, 1], listenedWorld.observables.contains o = true ∧
      ∃ requests, (listenedWorld.observable o).emitter =
        (({} : Emitter Handler).serveAll requests).2 := by
    have hsecond : listenedWorld.observables.contains 1 = true ∧
        ∃ requests, (listenedWorld.observable 1).emitter =
          (({} : Emitter Handler).serveAll requests).2 := ⟨rfl, _, rfl⟩
    rw [List.forall_mem_cons, List.forall_mem_cons, List.forall_mem_singleton]
    exact ⟨hsecond, ⟨rfl, [], rfl⟩, hsecond⟩
  obtain ⟨-, horder⟩ := listening_history.2 Unit listenedWorld 9 [1, 0, 1] hobservables
  obtain ⟨hanswers, hlists⟩ := horder [(1, 4), (1, 3), (0, 0)] (by decide +kernel)
  exact ⟨rfl, rfl, hanswers, (hlists 1 "mutate").trans rfl⟩

end World

end LiveMarkup
