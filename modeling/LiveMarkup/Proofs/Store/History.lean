import LiveMarkup.Store
import Mathlib.Data.List.Basic
import Mathlib.Data.List.Induction

/-!
What a store holds, told from its history. The value that stands for a key is the one that the last
request for the key set (`Store.standing?`). A key is introduced where it is set while no value
stands for it, if it is not unset later (`Store.introducedAt?`). After any requests to a new store
the values are those that stand, the keys are in the order in which they were introduced, and the
answer to each request is the value that stood before it (`Store.serveAll_eq_history`).
-/

set_option autoImplicit false
set_option relaxedAutoImplicit false

namespace LiveMarkup.Store

/-! ### Requests and what stands after them -/

/-- A request that changes a store. -/
inductive Request where
  | set (key : String) (value : Value)
  | unset (key : String)

namespace Request

/-- The key that a request is for. -/
def key : Request → String
  | .set key _ => key
  | .unset key => key

/-- The value that a request gives to its key. -/
def value? : Request → Option Value
  | .set _ value => some value
  | .unset _ => none

/-- Whether a request unsets a key. -/
def unsets (key : String) : Request → Bool
  | .set .. => false
  | .unset other => key == other

end Request

/-- Serves one request. -/
def serve (store : Store) : Request → Option Value × Store
  | .set key value => store.set key value
  | .unset key => store.unset key

/-- Serves requests one after the other, and collects the answers. -/
def serveAll (store : Store) : List Request → List (Option Value) × Store
  | [] => ([], store)
  | request :: later =>
    let (answer, store) := store.serve request
    let (answers, store) := store.serveAll later
    (answer :: answers, store)

/-- The value that the last request for a key gave to it. -/
def standing? (key : String) (history : List Request) : Option Value :=
  (history.filter fun request ↦ request.key == key).getLast?.bind Request.value?

/-- The key that is introduced at a place in a history: it is set there, no value stood for it
before, and it is not unset later. -/
def introducedAt? (history : List Request) (place : Nat) : Option String :=
  match history[place]? with
  | some (.set key _) =>
    if (standing? key (history.take place)).isSome then none
    else if (history.drop (place + 1)).any (Request.unsets key) then none
    else some key
  | _ => none

/-- The keys that were introduced, in the order in which they were. -/
def introductions (history : List Request) : List String :=
  (List.range history.length).filterMap (introducedAt? history)

variable {history : List Request} {store : Store}

theorem serveAll_append (store : Store) (requests more : List Request) :
    store.serveAll (requests ++ more) =
      ((store.serveAll requests).1 ++ ((store.serveAll requests).2.serveAll more).1,
        ((store.serveAll requests).2.serveAll more).2) := by
  induction requests generalizing store with
  | nil => rfl
  | cons request requests ih => simp only [List.cons_append, serveAll, ih]

theorem standing?_append (key : String) (history : List Request) (request : Request) :
    standing? key (history ++ [request]) =
      if request.key = key then request.value? else standing? key history := by
  by_cases hkey : request.key = key
  · simp [standing?, hkey]
  · simp [standing?, hkey]

/-- One more request takes an introduction back if it unsets the key. -/
theorem introducedAt?_append {place : Nat} (hplace : place < history.length) (request : Request) :
    introducedAt? (history ++ [request]) place =
      (introducedAt? history place).filter fun key ↦ !request.unsets key := by
  have hnext : place + 1 ≤ history.length := hplace
  rw [introducedAt?, introducedAt?, List.getElem?_append_left hplace,
    List.take_append_of_le_length (Nat.le_of_lt hplace), List.drop_append_of_le_length hnext]
  split
  · rename_i key value heq
    rw [List.any_append, List.any_cons, List.any_nil, Bool.or_false]
    split
    · rfl
    · cases hlater : (history.drop (place + 1)).any (Request.unsets key) <;>
        cases hunsets : request.unsets key <;> simp [Option.filter_some, hunsets]
  · rfl

theorem introductions_append (history : List Request) (request : Request) :
    introductions (history ++ [request]) =
      ((introductions history).filter fun key ↦ !request.unsets key) ++
        (introducedAt? (history ++ [request]) history.length).toList := by
  have hearlier : (List.range history.length).filterMap (introducedAt? (history ++ [request])) =
      (introductions history).filter fun key ↦ !request.unsets key := by
    rw [introductions, List.filter_filterMap]
    exact List.filterMap_congr fun place hplace ↦
      introducedAt?_append (List.mem_range.mp hplace) request
  have hlength : (history ++ [request]).length = history.length + 1 := by simp
  rw [introductions, hlength, List.range_succ, List.filterMap_append, hearlier]
  cases hlast : introducedAt? (history ++ [request]) history.length <;> simp [hlast]

theorem introductions_append_set (history : List Request) (key : String) (value : Value) :
    introductions (history ++ [.set key value]) =
      introductions history ++ if (standing? key history).isSome then [] else [key] := by
  have hkept : ∀ other ∈ introductions history,
      (!(Request.set key value).unsets other) = true := fun _ _ ↦ rfl
  have hlast : introducedAt? (history ++ [.set key value]) history.length =
      if (standing? key history).isSome then none else some key := by
    simp [introducedAt?]
  rw [introductions_append, List.filter_eq_self.mpr hkept, hlast]
  split <;> rfl

theorem introductions_append_unset (history : List Request) (key : String) :
    introductions (history ++ [.unset key]) =
      (introductions history).filter fun other ↦ decide (other ≠ key) := by
  have hlast : introducedAt? (history ++ [.unset key]) history.length = none := by
    simp [introducedAt?]
  rw [introductions_append, hlast, Option.toList_none, List.append_nil]
  refine List.filter_congr fun other _ ↦ ?_
  rw [decide_not]
  rfl

/-! ### Stores and their histories -/

/-- A store holds what its history says. -/
structure Remembers (history : List Request) (store : Store) : Prop where
  value : ∀ key, store.entries.get? key = standing? key history
  keys : store.keys = introductions history

namespace Remembers

theorem empty : Remembers [] ({} : Store) := ⟨fun _ ↦ rfl, rfl⟩

theorem has (h : Remembers history store) (key : String) :
    store.has key = (standing? key history).isSome := by
  rw [← h.value]
  rfl

/-- The answer to a request is the value that stood before it. -/
theorem answer (h : Remembers history store) (request : Request) :
    (store.serve request).1 = standing? request.key history := by
  cases request with
  | set key value => exact h.value key
  | unset key => exact h.value key

theorem mem_keys (store : Store) (key : String) : key ∈ store.keys ↔ store.has key = true :=
  (store.entries.contains_iff key).symm

theorem serve (h : Remembers history store) (request : Request) :
    Remembers (history ++ [request]) (store.serve request).2 := by
  cases request with
  | set key value =>
    constructor
    · intro other
      rw [standing?_append, ← h.value]
      exact store.entries.get?_insert key other value
    · have hkeys : (store.serve (.set key value)).2.keys =
          if key ∈ store.keys then store.keys else store.keys ++ [key] :=
        store.entries.keys_insert key value
      rw [hkeys, introductions_append_set, ← h.keys, ← h.has]
      by_cases hkey : key ∈ store.keys
      · rw [if_pos hkey, if_pos ((mem_keys store key).mp hkey), List.append_nil]
      · rw [if_neg hkey, if_neg fun hhas ↦ hkey ((mem_keys store key).mpr hhas)]
  | unset key =>
    constructor
    · intro other
      rw [standing?_append, ← h.value]
      exact store.entries.get?_erase key other
    · rw [introductions_append_unset, ← h.keys]
      exact store.entries.keys_erase key

/-- A new store remembers whatever it is asked for. -/
theorem serveAll (history : List Request) :
    Remembers history (({} : Store).serveAll history).2 := by
  induction history using List.reverseRecOn with
  | nil => exact .empty
  | append_singleton history request ih =>
    rw [serveAll_append]
    exact ih.serve request

end Remembers

/-- Each answer is the value that stood when the request came. -/
theorem answers_eq (history : List Request) :
    (({} : Store).serveAll history).1 =
      history.mapIdx fun place request ↦ standing? request.key (history.take place) := by
  induction history using List.reverseRecOn with
  | nil => rfl
  | append_singleton history request ih =>
    have hlast := (Remembers.serveAll history).answer request
    have hearlier : (history.mapIdx fun place earlier ↦
          standing? earlier.key ((history ++ [request]).take place)) =
        history.mapIdx fun place earlier ↦ standing? earlier.key (history.take place) := by
      refine List.mapIdx_eq_mapIdx_iff.mpr fun place hplace ↦ ?_
      rw [List.take_append_of_le_length (Nat.le_of_lt hplace)]
    rw [serveAll_append, ih, List.mapIdx_concat, hearlier, List.take_left]
    exact congrArg (_ ++ [·]) hlast

/-- After any requests to a new store, a key has the value that the last request for it set, or
none; the answer to each request is the value that its key had before; the keys are those that have
a value, each once, in the order in which they were introduced since they were unset last. A key
that is overwritten keeps its place, the others keep their order when one is unset, and a key that
is set again comes last. -/
theorem serveAll_eq_history (history : List Request) :
    let answers := (({} : Store).serveAll history).1
    let store := (({} : Store).serveAll history).2
    (∀ key default, store.get key default = (standing? key history).getD default) ∧
      (∀ key, store.has key = (standing? key history).isSome) ∧
      answers = (history.mapIdx fun place request ↦
        standing? request.key (history.take place)) ∧
      (store.keys.Nodup ∧ (∀ key, key ∈ store.keys ↔ store.has key = true) ∧
        store.keys = introductions history) ∧
      (∀ key value, (store.set key value).2.keys =
        if store.has key then store.keys else store.keys ++ [key]) ∧
      (∀ key, (store.unset key).2.keys = store.keys.filter fun other ↦ other ≠ key) ∧
      store.size = store.keys.length := by
  intro answers store
  have h : Remembers history store := .serveAll history
  refine ⟨fun key default ↦ ?_, h.has, answers_eq history,
    ⟨store.entries.nodup_keys, Remembers.mem_keys store, h.keys⟩, fun key value ↦ ?_,
    fun key ↦ store.entries.keys_erase key, store.entries.length_keys.symm⟩
  · rw [← h.value]
    rfl
  · refine (store.entries.keys_insert key value).trans ?_
    simp only [← Remembers.mem_keys]
    rfl

example : (({} : Store).serveAll [.set "a" (.text "1"), .set "b" (.text "2"), .set "c" (.text "3"),
    .unset "b", .set "a" (.text "4"), .set "b" (.text "5")]).2.keys = ["a", "c", "b"] := by
  decide +kernel

end LiveMarkup.Store
