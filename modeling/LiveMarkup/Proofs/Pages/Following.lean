import LiveMarkup.Proofs.Pages.Upkeep

/-!
Pages that follow an observable. A root that is subscribed is a follower beside others
(`World.Followed`): a mutation of the observable refreshes all of them and leaves them what they
were (`World.Bears.exists_mutate`), and the root of another page takes the place of the earlier one
(`World.Followed.subscribe`).
-/

set_option autoImplicit false
set_option relaxedAutoImplicit false

namespace LiveMarkup

theorem Table.lt_next_of_contains {α : Type} {t : Table α} {i : Nat} (h : t.contains i = true) :
    i < t.next := by
  obtain ⟨row, hrow, rfl⟩ := List.mem_map.mp ((t.contains_iff i).mp h)
  exact t.bounded row hrow

namespace Observable

variable {alive : Target → Bool} {target : Target} {observable : Observable}

theorem emitter_subscribe_iterate (times : Nat) :
    ((subscribe alive target)^[times] observable).emitter = observable.emitter := by
  induction times with
  | zero => rfl
  | succ times ih =>
    rw [Function.iterate_succ_apply']
    exact ih

theorem mem_subscribe_iterate {other : Target} (times : Nat)
    (h : other ∈ ((subscribe alive target)^[times] observable).subscribers) :
    other ∈ observable.subscribers ∨ other = target := by
  induction times with
  | zero => exact .inl h
  | succ times ih =>
    rw [Function.iterate_succ_apply'] at h
    rcases List.mem_append.mp h with hold | hlast
    · exact ih (List.mem_filter.mp hold).1
    · exact .inr (List.mem_singleton.mp hlast)

/-- Of the entries that a test accepts, subscribing drops none that is alive, and adds the target at
the end. -/
theorem filter_subscribe_iterate {test : Target → Bool} (htest : test target = true)
    (halive : ∀ other ∈ observable.subscribers, test other = true → alive other = true)
    (htarget : alive target = true) (times : Nat) :
    ((subscribe alive target)^[times] observable).subscribers.filter test =
      observable.subscribers.filter test ++ List.replicate times target := by
  induction times with
  | zero => exact (List.append_nil _).symm
  | succ times ih =>
    rw [Function.iterate_succ_apply', List.replicate_succ', ← List.append_assoc, ← ih]
    show (List.filter alive _ ++ [target]).filter test = _
    rw [List.filter_append, List.filter_filter, List.filter_singleton, htest]
    refine congrArg (· ++ [target]) (List.filter_congr fun other hother ↦ ?_)
    cases haccepted : test other with
    | false => rfl
    | true =>
      rcases mem_subscribe_iterate times hother with hold | rfl
      · rw [halive other hold haccepted, Bool.and_true]
      · rw [htarget, Bool.and_true]

/-- A target that is subscribed at least once leaves the live entries in the list, and itself. -/
theorem length_subscribe_iterate (htarget : alive target = true) (times : Nat) :
    ((subscribe alive target)^[times + 1] observable).subscribers.length =
      (observable.subscribers.filter alive).length + (times + 1) := by
  rw [Function.iterate_succ_apply']
  show (List.filter alive _ ++ [target]).length = _
  rw [filter_subscribe_iterate htarget (fun _ _ halive ↦ halive) htarget, List.length_append,
    List.length_append, List.length_replicate, List.length_singleton, Nat.add_assoc]

end Observable

namespace World

variable {σ : Type} {base w w' built : World σ} {id : AppId} {page : Exhibit} {client : Client σ}
  {o : ObservableId} {others : List Target} {times : Nat} {bound : Nat} {observable : Observable}

theorem knows_of_isAlive {target : Target} (h : w.isAlive target = true) : w.Knows target := by
  cases target with
  | node n => exact Table.lt_next_of_contains h
  | recorder n => exact Table.lt_next_of_contains h

/-! ### Followers -/

/-- Who follows an observable while nothing runs: those entries are alive that its followers have,
and there are not too many others. Its listeners do nothing. -/
structure Followed (client : Client σ) (o : ObservableId) (followers : List Target) (bound : Nat)
    (w : World σ) (observable : Observable) : Prop where
  get : w.observables.get? o = some observable
  live : observable.subscribers.filter w.isAlive = followers
  length_le : observable.subscribers.length ≤ bound
  knows : ∀ target ∈ observable.subscribers, w.Knows target
  quiet : ∀ event, ∀ handler ∈ observable.listeners event, ∀ value,
    Quiet client (.listen handler value)

namespace Followed

variable {followers earlier : List Target} {root : NodeId}

theorem subscriberCount_eq (h : Followed client o followers bound w observable) :
    w.subscriberCount o = followers.length := by
  rw [subscriberCount, liveSubscribers, observable_eq h.get, Observable.liveSubscribers, h.live]

/-- An observable of which all entries are alive is followed by them. -/
theorem of_alive (hget : w.observables.get? o = some observable)
    (halive : ∀ target ∈ observable.subscribers, w.isAlive target = true)
    (hlength : observable.subscribers.length ≤ bound)
    (hquiet : ∀ event, ∀ handler ∈ observable.listeners event, ∀ value,
      Quiet client (.listen handler value)) :
    Followed client o observable.subscribers bound w observable where
  get := hget
  live := List.filter_eq_self.mpr halive
  length_le := hlength
  knows := fun target htarget ↦ knows_of_isAlive (halive target htarget)
  quiet := hquiet

/-- The same observable is followed where the same targets are alive. -/
theorem congr (h : Followed client o followers bound w observable) (hnodes : w'.nodes = w.nodes)
    (hrecorders : w'.recorders = w.recorders) {changed : Observable}
    (hget : w'.observables.get? o = some changed)
    (hsubscribers : changed.subscribers = observable.subscribers)
    (hemitter : changed.emitter = observable.emitter) :
    Followed client o followers bound w' changed := by
  have halive : w'.isAlive = w.isAlive := by
    funext target
    cases target <;> simp only [World.isAlive, hnodes, hrecorders]
  refine ⟨hget, ?_, ?_, fun target htarget ↦ ?_, ?_⟩
  · rw [hsubscribers, halive, h.live]
  · rw [hsubscribers]
    exact h.length_le
  · exact (Ages.of_eq hnodes hrecorders).knows (h.knows target (hsubscribers ▸ htarget))
  · unfold Observable.listeners
    rw [hemitter]
    exact h.quiet

theorem undisturbed (h : Followed client o followers bound w observable)
    (hsame : w.Undisturbed w') : Followed client o followers bound w' observable := by
  refine h.congr ?_ ?_ ?_ rfl rfl
  · rw [hsame.eq]
  · rw [hsame.eq]
  · rw [hsame.observables, h.get]

/-- The listeners of the observable are told its value. -/
theorem exists_emit (h : Followed client o followers bound w observable) (event : Event) :
    ∃ w', w.emit client o event = .ok w' ∧ w.Undisturbed w' := by
  refine exists_announce (fun handler hhandler ↦ ?_) w
  rw [observable_eq h.get] at hhandler
  exact h.quiet event handler hhandler _

end Followed

/-- Others follow an observable, and the root of a page does that was subscribed a number of
times. -/
def followers (others : List Target) (times : Nat) (root : NodeId) : List Target :=
  others ++ List.replicate times (.node root)

/-- A new root follows an observable in place of earlier followers that are gone. -/
theorem Followed.subscribe {earlier : List Target} {root : NodeId}
    (h : Followed client o (others ++ earlier) bound w observable) (hbuilt : w.Ages built)
    (hshown : built.Ages w') (hobservables : w'.observables = built.observables)
    (hget : built.observables.get? o =
      some ((Observable.subscribe built.isAlive (.node root))^[times] observable))
    (hothers : ∀ target ∈ others, w'.isAlive target = true)
    (hearlier : ∀ target ∈ earlier, w'.isAlive target = false)
    (hroot : w'.isAlive (.node root) = true) (hknown : built.Knows (.node root))
    (hbound : others.length + earlier.length + times ≤ bound) :
    Followed client o (followers others times root) bound w'
      ((Observable.subscribe built.isAlive (.node root))^[times] observable) := by
  have hrootBuilt : built.isAlive (.node root) = true := hshown.isAlive hknown hroot
  have hleft : observable.subscribers.filter w'.isAlive = others := by
    rw [(hbuilt.trans hshown).filter_isAlive h.knows, h.live, List.filter_append,
      List.filter_eq_self.mpr hothers, List.filter_eq_nil_iff.mpr, List.append_nil]
    intro target htarget
    rw [hearlier target htarget]
    exact Bool.false_ne_true
  refine ⟨hobservables ▸ hget, ?_, ?_, fun target htarget ↦ ?_, ?_⟩
  · rw [Observable.filter_subscribe_iterate hroot
      (fun target htarget ↦ hshown.isAlive (hbuilt.knows (h.knows target htarget))) hrootBuilt,
      hleft]
    rfl
  · cases times with
    | zero => exact h.length_le
    | succ times =>
      rw [Observable.length_subscribe_iterate hrootBuilt, hbuilt.filter_isAlive h.knows, h.live]
      have hle := List.length_filter_le built.isAlive (others ++ earlier)
      rw [List.length_append] at hle
      omega
  · rcases Observable.mem_subscribe_iterate times htarget with hold | rfl
    · exact (hbuilt.trans hshown).knows (h.knows target hold)
    · exact hshown.knows hknown
  · unfold Observable.listeners
    rw [Observable.emitter_subscribe_iterate]
    exact h.quiet

/-! ### Mutations -/

/-- A page is shown, whatever it is displayed as, and its root follows an observable beside
others. -/
def Upholds (base : World σ) (client : Client σ) (id : AppId) (page : Exhibit) (o : ObservableId)
    (others : List Target) (times bound : Nat) (w : World σ) : Prop :=
  ∃ form first observable, Bears base id { page with form := form, first := first } [] w ∧
    Followed client o (followers others times page.root) bound w observable

theorem Bears.modifyObservable {extra : List Root} (h : Bears base id page extra w)
    (hvacant : base.Vacant id) (o : ObservableId) (f : Observable → Observable) :
    Bears base id page extra (w.modifyObservable o f) :=
  h.congr rfl hvacant.held (fun _ _ ↦ rfl) (fun _ _ ↦ rfl)
    (fun _ surface hsurface ↦ ⟨surface, hsurface⟩) h.heldPerm (fun _ ↦ rfl) rfl

/-- Those who follow the observable are alive as long as the page is shown. -/
theorem Bears.isAlive_of_mem {extra : List Root} (h : Bears base id page extra w)
    (hidle : ∀ target ∈ others, Idle client base target) {target : Target}
    (htarget : target ∈ followers others times page.root) :
    w.isAlive target = true := by
  rcases List.mem_append.mp htarget with hother | hroot
  · exact (hidle target hother).isAlive h
  · rw [List.eq_of_mem_replicate hroot]
    exact h.isAlive_root

variable [Journal σ] (hvacant : base.Vacant id) (hidle : ∀ target ∈ others, Idle client base target)

include hvacant hidle

/-- When a value was stored, all who follow the observable are refreshed and its listeners told. -/
theorem Bears.exists_mutated (h : Bears base id page [] w)
    (hfollowed : Followed client o (followers others times page.root) bound w observable) :
    ∃ w', w.mutated client o = .ok w' ∧ Upholds base client id page o others times bound w' := by
  let pruned := w.modifyObservable o (Observable.prune w.isAlive)
  have hpruned : pruned.observables.get? o = some (observable.prune w.isAlive) :=
    observable_modifyObservable hfollowed.get _
  have hsubscribers : (observable.prune w.isAlive).subscribers =
      followers others times page.root := hfollowed.live
  have htargets : ∀ target ∈ (pruned.observable o).subscribers,
      target = .node page.root ∨ Idle client base target := by
    intro target htarget
    rw [observable_eq hpruned, hsubscribers] at htarget
    rcases List.mem_append.mp htarget with hother | hroot
    · exact .inr (hidle target hother)
    · exact .inl (List.eq_of_mem_replicate hroot)
  obtain ⟨refreshed, hpass, form, first, hbears, hobservables⟩ :=
    (h.modifyObservable hvacant o (Observable.prune w.isAlive)).exists_notifyAll hvacant htargets
  have hrefreshed : Followed client o (followers others times page.root) bound refreshed
      (observable.prune w.isAlive) := by
    have halive : ∀ target ∈ (observable.prune w.isAlive).subscribers,
        refreshed.isAlive target = true := by
      rw [hsubscribers]
      exact fun target ↦ hbears.isAlive_of_mem hidle
    rw [← hsubscribers]
    exact .of_alive (hobservables ▸ hpruned) halive
      (Nat.le_trans (List.length_filter_le _ _) hfollowed.length_le) hfollowed.quiet
  obtain ⟨w', hemit, hsame⟩ := hrefreshed.exists_emit .mutate
  refine ⟨w', ?_, form, first, observable.prune w.isAlive, hbears.undisturbed hvacant hsame,
    hrefreshed.undisturbed hsame⟩
  show ((pruned.observable o).subscribers.foldlM (notify client) pruned >>= _) = _
  rw [hpass]
  exact hemit

/-- A mutation leaves the page shown and its root a follower. -/
theorem Bears.exists_mutate (h : Bears base id page [] w)
    (hfollowed : Followed client o (followers others times page.root) bound w observable)
    (mutation : Mutation) :
    ∃ w', w.mutate client o mutation = .ok w' ∧
      Upholds base client id page o others times bound w' := by
  have hstored (value : Value) : ∃ w', (w.store o value).mutated client o = .ok w' ∧
      Upholds base client id page o others times bound w' := by
    have hstill : Followed client o (followers others times page.root) bound (w.store o value)
        { observable with value := value } :=
      hfollowed.congr (show (w.store o value).nodes = w.nodes from rfl) rfl
        (observable_modifyObservable hfollowed.get _) rfl rfl
    exact (h.modifyObservable hvacant o _).exists_mutated hvacant hidle hstill
  cases mutation with
  | set value => exact hstored value
  | operate operation =>
    cases hnumber : (w.observable o).value.number? with
    | none =>
      refine ⟨w, ?_, page.form, page.first, observable, h, hfollowed⟩
      rw [mutate, operate, hnumber]
      rfl
    | some n =>
      obtain ⟨mutated, hmutated, form, first, changed, hbears, hstill⟩ :=
        hstored (.number (operation.apply n))
      obtain ⟨w', hemit, hsame⟩ := hstill.exists_emit operation.event
      refine ⟨w', ?_, form, first, changed, hbears.undisturbed hvacant hsame,
        hstill.undisturbed hsame⟩
      rw [mutate, operate, hnumber]
      dsimp only
      rw [hmutated]
      show ((mutated.emit client o operation.event >>= _) >>= _) = _
      rw [hemit]
      rfl

end World

end LiveMarkup
