import Libftpp.ObservableTurns

/-! What one observer gets to see (`observable_value.hpp`). Where observers only take
note of what they are told, each of them sees a value of its own: it is told every
change made while it is subscribed, in order, and nothing else, whoever else is
subscribed and in whatever order the set is gone through. -/
namespace Libftpp
open Program

namespace ObservableValue

variable {TType Observer : Type}

/-- A call by the owner of the value. -/
inductive Operation (TType Observer : Type) where
  | subscribe (observer : Option Observer)
  | unsubscribe (observer : Option Observer)
  | set (newValue : TType)
  | assign (newValue : TType)

/-- The value as one observer knows it. -/
@[ext] structure View (TType : Type) where
  value : TType
  subscribed : Bool
  received : List TType
  deriving DecidableEq

/-- What a call means for one observer. -/
def View.step [DecidableEq Observer] (differs : TType → TType → Bool) (observer : Observer) (view : View TType) :
    Operation TType Observer → View TType
  | .subscribe other => if other = some observer then { view with subscribed := true } else view
  | .unsubscribe other => if other = some observer then { view with subscribed := false } else view
  | .set newValue | .assign newValue =>
    if differs newValue view.value then
      { view with value := newValue, received := if view.subscribed then view.received ++ [newValue] else view.received }
    else view

/-- What the observer has been told. -/
def view [DecidableEq Observer] (observer : Observer) (observable : ObservableValue TType Observer) : View TType where
  value := observable.get
  subscribed := observer ∈ observable.subscriber
  received := observable.events.filterMap (handed observer)

/-- Observers that call nothing. -/
def heedful (_ : Observer) (_ : List (ObservableEvent TType Observer)) : UpdateBody TType Observer := .returns

variable [LinearOrder Observer] (differs : TType → TType → Bool)

/-- A call with observers that call nothing. -/
def serve (fuel : Nat) : Operation TType Observer → Observed TType Observer Unit
  | .subscribe observer => modify (subscribe observer)
  | .unsubscribe observer => modify (unsubscribe observer)
  | .set newValue => set differs (update differs heedful fuel) fuel newValue
  | .assign newValue => assign differs (update differs heedful fuel) fuel newValue

omit [LinearOrder Observer] in
theorem heedful_leaves (observer : Observer) (events : List (ObservableEvent TType Observer)) :
    (heedful observer events).Makes ObservableCall.Leaves := trivial

theorem allTurns_heedful {pending : List Observer} {observable : ObservableValue TType Observer}
    (there : ∀ observer ∈ pending, observer ∈ observable.subscriber) :
    allTurns heedful pending observable =
      { observable with events := observable.events ++ pending.map (.updated · observable.value) } := by
  induction pending generalizing observable with
  | nil => simp [allTurns]
  | cons observer pending ih =>
    have rest := @ih (observable.record (.updated observer observable.value)) fun other member =>
      there other (List.mem_cons_of_mem _ member)
    rw [allTurns, if_pos (there observer (List.mem_cons_self ..))]
    refine rest.trans ?_
    simp [record]

/-- With enough rounds, everybody is told the value once, in order. -/
theorem notify_heedful {fuel : Nat} {observable : ObservableValue TType Observer}
    (enough : observable.subscriber.card < fuel) :
    (notify (update differs heedful fuel) fuel).run observable = .ok ()
      { observable with events := observable.events ++ observable.subscriber.sort.map (.updated · observable.value) } := by
  obtain ⟨depth, rfl⟩ : ∃ depth, fuel = depth + 1 := ⟨fuel - 1, by omega⟩
  have sorted := observable.subscriber.sortedLT_sort.pairwise
  have staying : NoneLeavesInTurn heedful observable.subscriber.sort observable :=
    noneLeavesInTurn_of_others (fun _ _ => show (heedful _ _).Makes _ from trivial) _ _
  have turns : (notifyFrom (update differs heedful (depth + 1)) (depth + 1)
      (observable.subscriber.sort.find? (· ∈ observable.subscriber))).run observable = _ :=
    notifyFrom_allTurns heedful_leaves sorted (ahead_sort observable.subscriber) staying
      (by rw [Finset.length_sort]; omega)
  rw [← first_eq_find_sort, allTurns_heedful fun observer => (Finset.mem_sort _).mp] at turns
  exact turns

/-- Of the updates of a notification, one is for each subscriber. -/
theorem handed_sort (subscriber : Finset Observer) (value : TType) (observer : Observer) :
    (subscriber.sort.map (ObservableEvent.updated · value)).filterMap (handed observer) =
      if observer ∈ subscriber then [value] else [] := by
  have own : (subscriber.sort.map (ObservableEvent.updated · value)).filterMap (handed observer) =
      (subscriber.sort.filter (· = observer)).map fun _ => value := by
    rw [List.filterMap_map, ← List.filterMap_eq_map, List.filterMap_filter]
    apply List.filterMap_congr
    intro other _
    simp [handed]
  rw [own, List.filter_eq, List.map_replicate]
  split
  · rw [List.count_eq_one_of_mem (subscriber.sort_nodup _) ((Finset.mem_sort _).mpr ‹_›)]
    rfl
  · rw [List.count_eq_zero_of_not_mem fun member => ‹observer ∉ subscriber› ((Finset.mem_sort _).mp member)]
    rfl

/-- What a change makes of the value and its observers. -/
def told (newValue : TType) (observable : ObservableValue TType Observer) : ObservableValue TType Observer where
  value := newValue
  subscriber := observable.subscriber
  events := observable.events ++ observable.subscriber.sort.map (.updated · newValue)

theorem view_told (newValue : TType) (observable : ObservableValue TType Observer) (observer : Observer) :
    view observer (told newValue observable) =
      { view observer observable with
        value := newValue
        received := if (view observer observable).subscribed then (view observer observable).received ++ [newValue]
          else (view observer observable).received } := by
  ext1
  · rfl
  · rfl
  · change List.filterMap _ (_ ++ _) = _
    rw [List.filterMap_append, handed_sort]
    by_cases member : observer ∈ observable.subscriber <;> simp [view, member]

variable {differs} {fuel : Nat} {before : ObservableValue TType Observer}

theorem set_heedful (new : differs newValue before.value) (enough : before.subscriber.card < fuel) :
    (set differs (update differs heedful fuel) fuel newValue).run before = .ok () (told newValue before) := by
  have changed := @notify_heedful _ _ _ differs fuel { before with value := newValue } enough
  rw [set, EStateM.run_bind, EStateM.run_get]
  dsimp only
  rw [if_pos new]
  exact changed

theorem set_same (same : ¬ differs newValue before.value) :
    (set differs (update differs heedful fuel) fuel newValue).run before = .ok () before := by
  rw [set, EStateM.run_bind, EStateM.run_get]
  dsimp only
  rw [if_neg same]
  rfl

/-- `operator=` does what `set` does. -/
theorem assign_run (newValue : TType) :
    (assign differs (update differs heedful fuel) fuel newValue).run before =
      (set differs (update differs heedful fuel) fuel newValue).run before := by
  rw [assign, EStateM.run_bind, EStateM.run_get]
  dsimp only
  split
  · rfl
  · exact (set_same ‹_›).symm

theorem set_view (newValue : TType) (enough : before.subscriber.card < fuel) :
    ∃ after, (set differs (update differs heedful fuel) fuel newValue).run before = .ok () after ∧
      after.subscriber = before.subscriber ∧
      ∀ observer, view observer after = (view observer before).step differs observer (.set newValue) := by
  by_cases new : differs newValue before.value
  · refine ⟨_, set_heedful new enough, rfl, fun observer => ?_⟩
    rw [view_told]
    exact (if_pos new).symm
  · exact ⟨_, set_same new, rfl, fun observer => (if_neg new).symm⟩

/-- A call comes back, and is for every observer what it means for that one. -/
theorem serve_view (operation : Operation TType Observer) (enough : before.subscriber.card < fuel) :
    ∃ after, (serve differs fuel operation).run before = .ok () after ∧
      after.subscriber.card ≤ before.subscriber.card + 1 ∧
      ∀ observer, view observer after = (view observer before).step differs observer operation := by
  cases operation with
  | subscribe newcomer =>
    refine ⟨_, rfl, ?_, fun observer => ?_⟩
    · cases newcomer with
      | none => exact Nat.le_succ _
      | some newcomer => exact Finset.card_insert_le ..
    · cases newcomer with
      | none => rfl
      | some newcomer =>
        rcases eq_or_ne observer newcomer with rfl | apart
        · simp [View.step, view, subscribe, get]
        · simp [View.step, view, subscribe, get, apart, apart.symm]
  | unsubscribe leaver =>
    refine ⟨_, rfl, ?_, fun observer => ?_⟩
    · cases leaver with
      | none => exact Nat.le_succ _
      | some leaver => exact (Finset.card_erase_le).trans (Nat.le_succ _)
    · cases leaver with
      | none => rfl
      | some leaver =>
        rcases eq_or_ne observer leaver with rfl | apart
        · simp [View.step, view, unsubscribe, get]
        · simp [View.step, view, unsubscribe, get, apart, apart.symm]
  | set newValue =>
    obtain ⟨after, ran, same, views⟩ := set_view newValue enough
    exact ⟨after, ran, by rw [same]; exact Nat.le_succ _, views⟩
  | assign newValue =>
    obtain ⟨after, ran, same, views⟩ := set_view newValue enough
    exact ⟨after, (assign_run newValue).trans ran, by rw [same]; exact Nat.le_succ _, views⟩

theorem run_view {operations : List (Operation TType Observer)}
    (enough : before.subscriber.card + operations.length < fuel) :
    ∃ after, (operations.forM (serve differs fuel)).run before = .ok () after ∧
      ∀ observer, view observer after = operations.foldl (View.step differs observer) (view observer before) := by
  induction operations generalizing before with
  | nil => exact ⟨before, rfl, fun _ => rfl⟩
  | cons operation operations ih =>
    rw [List.length_cons] at enough
    obtain ⟨middle, ran, grown, views⟩ := @serve_view _ _ _ differs fuel before operation (by omega)
    obtain ⟨after, rest, all⟩ := @ih middle (by omega)
    refine ⟨after, bind_returns.mpr ⟨(), middle, ran, rest⟩, fun observer => ?_⟩
    rw [all, views, List.foldl_cons]

/-- Any calls of the owner come back, and every observer sees what it would see if
it were the only one. -/
theorem every_observer_sees_its_history {operations : List (Operation TType Observer)} {value : TType}
    (enough : operations.length < fuel) :
    ∃ after, (operations.forM (serve differs fuel)).run (⟨value, ∅, []⟩ : ObservableValue TType Observer) = .ok () after ∧
      ∀ observer, view observer after = operations.foldl (View.step differs observer) ⟨value, false, []⟩ :=
  run_view (by rwa [Finset.card_empty, Nat.zero_add])

/-- Observer 1 misses a change, observer 2 another one. -/
theorem history_of_two :
    ∃ after, (List.forM [Operation.subscribe (some 1), .set 5, .subscribe (some 2), .unsubscribe (some 1), .assign 7]
        (serve (· != ·) 6)).run (⟨0, ∅, []⟩ : ObservableValue Nat Nat) = .ok () after ∧
      ∀ observer, view observer after = [Operation.subscribe (some 1), .set 5, .subscribe (some 2), .unsubscribe (some 1),
        .assign 7].foldl (View.step (· != ·) observer) ⟨0, false, []⟩ :=
  every_observer_sees_its_history (by decide)

end ObservableValue
end Libftpp
