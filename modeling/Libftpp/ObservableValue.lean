import Mathlib.Data.Finset.Sort
import Libftpp.DataBuffer

/-! `ObservableValue` (`observable_value.hpp`). Its observers are told of a change
in the order of a `std::set`, and may change the value again or leave while they
are told. The nested notifications run to their end before the outer one goes on,
with the value as it is then. -/
namespace Libftpp
open Program

variable {TType Observer : Type}

/-- What an observer calls on the value while it is updated. -/
inductive ObservableCall (TType Observer : Type) where
  | set (newValue : TType)
  | assign (newValue : TType)
  | unsubscribe (observer : Option Observer)

/-- What has happened to a value, for all that observers can see. -/
inductive ObservableEvent (TType Observer : Type) where
  | updated (observer : Observer) (newValue : TType)
  | called (call : ObservableCall TType Observer)

/-- The rest of an `update`: finitely many calls, each chosen when the one before
it has come back. -/
inductive UpdateBody (TType Observer : Type) where
  | returns
  | calls (call : ObservableCall TType Observer)
      (next : List (ObservableEvent TType Observer) → UpdateBody TType Observer)

/-- All calls of the update are of a kind. -/
def UpdateBody.Makes (allowed : ObservableCall TType Observer → Prop) : UpdateBody TType Observer → Prop
  | .returns => True
  | .calls call next => allowed call ∧ ∀ events, (next events).Makes allowed

namespace ObservableCall

/-- The call changes the value, or tries to. -/
def Changes : ObservableCall TType Observer → Prop
  | .set _ => True
  | .assign _ => True
  | .unsubscribe _ => False

/-- The call takes an observer out. -/
def Leaves : ObservableCall TType Observer → Prop
  | .set _ => False
  | .assign _ => False
  | .unsubscribe _ => True

end ObservableCall

/-- `ObservableValue`. The set iterates in the order of the observers, which are
pointers; `events` is for the observers and not stored. -/
structure ObservableValue (TType Observer : Type) where
  value : TType
  subscriber : Finset Observer
  events : List (ObservableEvent TType Observer)

/-- A program on an `ObservableValue`. -/
abbrev Observed (TType Observer : Type) := Program Exn (ObservableValue TType Observer)

namespace ObservableValue

/-- `get`. -/
def get (observable : ObservableValue TType Observer) : TType := observable.value

/-- Something happens. -/
def record (event : ObservableEvent TType Observer) (observable : ObservableValue TType Observer) :
    ObservableValue TType Observer :=
  { observable with events := observable.events ++ [event] }

section Operations
variable [LinearOrder Observer]

/-- The iterator at the first element, `none` at `end()`. -/
def first (subscriber : Finset Observer) : Option Observer := subscriber.min

/-- The iterator behind an element. -/
def behind (subscriber : Finset Observer) (observer : Observer) : Option Observer :=
  first (subscriber.filter (observer < ·))

/-- `subscribe`. -/
def subscribe (observer : Option Observer) (observable : ObservableValue TType Observer) :
    ObservableValue TType Observer :=
  match observer with
  | none => observable
  | some observer => { observable with subscriber := insert observer observable.subscriber }

/-- `unsubscribe`. -/
def unsubscribe (observer : Option Observer) (observable : ObservableValue TType Observer) :
    ObservableValue TType Observer :=
  match observer with
  | none => observable
  | some observer => { observable with subscriber := observable.subscriber.erase observer }

/-- The loop of `notify` from an iterator on. It goes on from an element, which
must still be in the set. -/
def notifyFrom (update : Observer → TType → Observed TType Observer Unit) :
    Nat → Option Observer → Observed TType Observer Unit
  | _, none => pure ()
  | 0, some _ => hang
  | fuel + 1, some observer => do
    let observable ← MonadState.get
    update observer observable.value
    let observable ← MonadState.get
    if observer ∈ observable.subscriber then notifyFrom update fuel (behind observable.subscriber observer)
    else undefinedBehaviour

/-- `notify`. No null pointer is in the set. -/
def notify (update : Observer → TType → Observed TType Observer Unit) (fuel : Nat) : Observed TType Observer Unit := do
  let observable ← MonadState.get
  notifyFrom update fuel (first observable.subscriber)

/-- `set`, with `operator!=` of the type. -/
def set (differs : TType → TType → Bool) (update : Observer → TType → Observed TType Observer Unit) (fuel : Nat)
    (newValue : TType) : Observed TType Observer Unit := do
  let observable ← MonadState.get
  if differs newValue observable.value then do
    modify fun observable => { observable with value := newValue }
    notify update fuel

/-- `operator=`. -/
def assign (differs : TType → TType → Bool) (update : Observer → TType → Observed TType Observer Unit) (fuel : Nat)
    (newValue : TType) : Observed TType Observer Unit := do
  let observable ← MonadState.get
  if differs newValue observable.value then set differs update fuel newValue

/-- A call. -/
def perform (differs : TType → TType → Bool) (update : Observer → TType → Observed TType Observer Unit) (fuel : Nat) :
    ObservableCall TType Observer → Observed TType Observer Unit
  | .set newValue => set differs update fuel newValue
  | .assign newValue => assign differs update fuel newValue
  | .unsubscribe observer => modify (unsubscribe observer)

/-- The calls of an `update`, one after the other. -/
def respond (perform : ObservableCall TType Observer → Observed TType Observer Unit) :
    UpdateBody TType Observer → Observed TType Observer Unit
  | .returns => pure ()
  | .calls call next => do
    modify (record (.called call))
    perform call
    let observable ← MonadState.get
    respond perform (next observable.events)

/-- `update` of the observers, who react to what has happened. Updates nested
deeper than `fuel`, and loops with more rounds, are given up as divergent. -/
def update (differs : TType → TType → Bool)
    (react : Observer → List (ObservableEvent TType Observer) → UpdateBody TType Observer) :
    Nat → Observer → TType → Observed TType Observer Unit
  | 0, _, _ => hang
  | fuel + 1, observer, newValue => do
    modify (record (.updated observer newValue))
    let observable ← MonadState.get
    respond (perform differs (update differs react fuel) fuel) (react observer observable.events)

/-! ### More fuel -/

theorem notifyFrom_more {update continued : Observer → TType → Observed TType Observer Unit}
    (turns : ∀ observer newValue, Approximates (update observer newValue) (continued observer newValue))
    (enough : fuel ≤ more) (iterator : Option Observer) :
    Approximates (notifyFrom update fuel iterator) (notifyFrom continued more iterator) := by
  induction fuel generalizing more iterator with
  | zero =>
    cases iterator with
    | none => cases more <;> exact .refl _
    | some observer => exact .hang _
  | succ fuel ih =>
    obtain ⟨fewer, rfl⟩ : ∃ fewer, more = fewer + 1 := ⟨more - 1, by omega⟩
    cases iterator with
    | none => exact .refl _
    | some observer =>
      refine .bind (.refl _) fun observable => .bind (turns observer observable.value) fun _ =>
        .bind (.refl _) fun observable => .ite (ih (by omega) _) (.refl _)

theorem set_more {differs : TType → TType → Bool} {update continued : Observer → TType → Observed TType Observer Unit}
    (turns : ∀ observer newValue, Approximates (update observer newValue) (continued observer newValue))
    (enough : fuel ≤ more) (newValue : TType) :
    Approximates (set differs update fuel newValue) (set differs continued more newValue) :=
  .bind (.refl _) fun _ => .ite
    (.bind (.refl _) fun _ => .bind (.refl _) fun _ => notifyFrom_more turns enough _) (.refl _)

theorem perform_more {differs : TType → TType → Bool}
    {update continued : Observer → TType → Observed TType Observer Unit}
    (turns : ∀ observer newValue, Approximates (update observer newValue) (continued observer newValue))
    (enough : fuel ≤ more) (call : ObservableCall TType Observer) :
    Approximates (perform differs update fuel call) (perform differs continued more call) := by
  cases call with
  | set newValue => exact set_more turns enough newValue
  | assign newValue => exact .bind (.refl _) fun _ => .ite (set_more turns enough newValue) (.refl _)
  | unsubscribe observer => exact .refl _

omit [LinearOrder Observer] in
theorem respond_more {first second : ObservableCall TType Observer → Observed TType Observer Unit}
    (calls : ∀ call, Approximates (first call) (second call)) (body : UpdateBody TType Observer) :
    Approximates (respond first body) (respond second body) := by
  induction body with
  | returns => exact .refl _
  | calls call next ih =>
    exact .bind (.refl _) fun _ => .bind (calls call) fun _ => .bind (.refl _) fun _ => ih _

theorem update_more {differs : TType → TType → Bool}
    {react : Observer → List (ObservableEvent TType Observer) → UpdateBody TType Observer} (enough : fuel ≤ more)
    (observer : Observer) (newValue : TType) :
    Approximates (update differs react fuel observer newValue) (update differs react more observer newValue) := by
  induction fuel generalizing more observer newValue with
  | zero => exact .hang _
  | succ fuel ih =>
    obtain ⟨fewer, rfl⟩ : ∃ fewer, more = fewer + 1 := ⟨more - 1, by omega⟩
    have nested (call : ObservableCall TType Observer) :
        Approximates (perform differs (update differs react fuel) fuel call)
          (perform differs (update differs react fewer) fewer call) :=
      perform_more (ih (by omega)) (by omega) call
    exact .bind (.refl _) fun _ => .bind (.refl _) fun _ => respond_more nested _

/-- What a call leads to does not depend on the budget with which its cascade ends. -/
theorem perform_unique {differs : TType → TType → Bool}
    {react : Observer → List (ObservableEvent TType Observer) → UpdateBody TType Observer}
    {call : ObservableCall TType Observer} {before after after' : ObservableValue TType Observer}
    (one : (perform differs (update differs react fuel) fuel call).run before = .ok () after)
    (other : (perform differs (update differs react more) more call).run before = .ok () after') : after = after' := by
  have grows (fuel more : Nat) (enough : fuel ≤ more) :
      Approximates (perform differs (update differs react fuel) fuel call)
        (perform differs (update differs react more) more call) :=
    perform_more (update_more enough) enough call
  exact (Approximates.unique grows one other).2

end Operations

/-! ### What has been handed over -/

section Handed
variable [DecidableEq Observer]

/-- The value of an update of this observer. -/
def handed (observer : Observer) : ObservableEvent TType Observer → Option TType
  | .updated other newValue => if other = observer then some newValue else none
  | .called _ => none

/-- The value in the last update of this observer. -/
def lastHanded (events : List (ObservableEvent TType Observer)) (observer : Observer) : Option TType :=
  (events.filterMap (handed observer)).getLast?

@[simp] theorem lastHanded_nil (observer : Observer) :
    lastHanded ([] : List (ObservableEvent TType Observer)) observer = none := rfl

theorem lastHanded_append (events more : List (ObservableEvent TType Observer)) (observer : Observer) :
    lastHanded (events ++ more) observer = (lastHanded more observer).or (lastHanded events observer) := by
  simp [lastHanded, List.getLast?_append]

theorem lastHanded_called (call : ObservableCall TType Observer) (observer : Observer) :
    lastHanded [.called call] observer = none := rfl

theorem lastHanded_updated (observer : Observer) (newValue : TType) (other : Observer) :
    lastHanded [.updated observer newValue] other = if observer = other then some newValue else none := by
  by_cases same : observer = other <;> simp [lastHanded, handed, same]

/-- Since `before`, nobody has been updated and the value is as it was, or
everybody has last been handed the value that it is now. -/
def Converges (before after : ObservableValue TType Observer) : Prop :=
  after.subscriber = before.subscriber ∧ ∃ added, after.events = before.events ++ added ∧
    ((after.value = before.value ∧ ∀ observer, lastHanded added observer = none) ∨
      ∀ observer ∈ before.subscriber, lastHanded added observer = some after.value)

theorem Converges.refl (observable : ObservableValue TType Observer) : Converges observable observable :=
  ⟨rfl, [], by simp, Or.inl ⟨rfl, lastHanded_nil⟩⟩

theorem Converges.trans {before middle after : ObservableValue TType Observer} (first : Converges before middle)
    (second : Converges middle after) : Converges before after := by
  obtain ⟨sameFirst, added, extendsFirst, first⟩ := first
  obtain ⟨sameSecond, more, extendsSecond, second⟩ := second
  refine ⟨sameSecond.trans sameFirst, added ++ more, by rw [extendsSecond, extendsFirst, List.append_assoc], ?_⟩
  simp only [lastHanded_append]
  rcases second with ⟨sameValue, quiet⟩ | settled
  · simp only [quiet, Option.none_or, sameValue]
    exact first
  · right
    intro observer subscribed
    rw [settled observer (sameFirst ▸ subscribed), Option.some_or]

theorem converges_called (observable : ObservableValue TType Observer) (call : ObservableCall TType Observer) :
    Converges observable (observable.record (.called call)) :=
  ⟨rfl, [.called call], rfl, Or.inl ⟨rfl, lastHanded_called call⟩⟩

end Handed

/-! ### The order of the loop -/

section Loop
variable [LinearOrder Observer]

theorem first_none {subscriber : Finset Observer} (done : first subscriber = none) : subscriber = ∅ :=
  Finset.min_eq_top.mp done

theorem first_some {subscriber : Finset Observer} (found : first subscriber = some observer) :
    observer ∈ subscriber ∧ ∀ other ∈ subscriber, observer ≤ other :=
  ⟨Finset.mem_of_min found, fun _ member => Finset.min_le_of_eq member found⟩

/-- The elements before an iterator. -/
def Passed (iterator : Option Observer) (observer : Observer) : Prop := ∀ next, iterator = some next → observer < next

theorem not_passed_first {subscriber : Finset Observer} {observer : Observer} (member : observer ∈ subscriber) :
    ¬ Passed (first subscriber) observer := by
  intro passed
  cases found : first subscriber with
  | none =>
    rw [first_none found] at member
    cases member
  | some next => exact absurd (passed next found) (not_lt.mpr ((first_some found).2 observer member))

/-- Behind an element, only that element has been passed in addition. -/
theorem passed_behind {subscriber : Finset Observer} {observer other : Observer} (member : other ∈ subscriber)
    (passed : Passed (behind subscriber observer) other) : other = observer ∨ other < observer := by
  rcases lt_trichotomy other observer with before | same | later
  · exact Or.inr before
  · exact Or.inl same
  · exact absurd passed (not_passed_first (Finset.mem_filter.mpr ⟨member, later⟩))

/-- What an update does if observers only change the value: after it, its
observer has last been handed the value, or everybody has. -/
def Answers (observer : Observer) (before after : ObservableValue TType Observer) : Prop :=
  after.subscriber = before.subscriber ∧ ∃ added, after.events = before.events ++ added ∧
    ((after.value = before.value ∧ lastHanded added observer = some before.value ∧
        ∀ other ≠ observer, lastHanded added other = none) ∨
      ∀ other ∈ before.subscriber, lastHanded added other = some after.value)

/-- Every update that comes back answers so. -/
def Answering (update : Observer → TType → Observed TType Observer Unit) : Prop :=
  ∀ observer before after, (update observer before.value).run before = .ok () after → Answers observer before after

theorem answers_of_converges {observer : Observer} {before after : ObservableValue TType Observer}
    (converges : Converges (before.record (.updated observer before.value)) after) : Answers observer before after := by
  obtain ⟨same, added, extend, settled⟩ := converges
  refine ⟨same, .updated observer before.value :: added, by simp [extend, record], ?_⟩
  have split : ∀ other, lastHanded (.updated observer before.value :: added) other =
      (lastHanded added other).or (lastHanded [.updated observer before.value] other) :=
    lastHanded_append [.updated observer before.value] added
  simp only [split, lastHanded_updated]
  rcases settled with ⟨sameValue, quiet⟩ | settled
  · refine Or.inl ⟨sameValue, by simp [quiet], fun other different => ?_⟩
    rw [quiet, if_neg (Ne.symm different)]
    rfl
  · right
    intro other subscribed
    rw [settled other subscribed]
    rfl

/-- A round of the loop. -/
theorem notifyFrom_round {update : Observer → TType → Observed TType Observer Unit} {fuel : Nat}
    {before after : ObservableValue TType Observer} :
    (notifyFrom update (fuel + 1) (some observer)).run before = .ok () after ↔
      ∃ middle, (update observer before.value).run before = .ok () middle ∧ observer ∈ middle.subscriber ∧
        (notifyFrom update fuel (behind middle.subscriber observer)).run middle = .ok () after := by
  simp only [notifyFrom, EStateM.run_bind, EStateM.run_get]
  cases updated : (update observer before.value).run before with
  | error halt middle => simp
  | ok value middle =>
    simp only [run_ite, EStateM.Result.ok.injEq, true_and, exists_eq_left']
    by_cases remains : observer ∈ middle.subscriber
    · simp [remains]
    · simp [remains]

/-- The loop, from the elements it has passed to all of them. -/
theorem notifyFrom_settles {update : Observer → TType → Observed TType Observer Unit}
    (answers : Answering update)
    {fuel : Nat} {iterator : Option Observer} {start added : List (ObservableEvent TType Observer)}
    {before after : ObservableValue TType Observer} (extend : before.events = start ++ added)
    (settled : ∀ observer ∈ before.subscriber, Passed iterator observer → lastHanded added observer = some before.value)
    (ran : (notifyFrom update fuel iterator).run before = .ok () after) :
    after.subscriber = before.subscriber ∧ ∃ added, after.events = start ++ added ∧
      ∀ observer ∈ before.subscriber, lastHanded added observer = some after.value := by
  induction fuel generalizing iterator added before with
  | zero =>
    cases iterator with
    | none =>
      cases ran
      exact ⟨rfl, added, extend, fun observer subscribed => settled observer subscribed nofun⟩
    | some observer => cases ran
  | succ fuel ih =>
    cases iterator with
    | none =>
      cases ran
      exact ⟨rfl, added, extend, fun observer subscribed => settled observer subscribed nofun⟩
    | some observer =>
      obtain ⟨middle, updated, _, rest⟩ := notifyFrom_round.mp ran
      obtain ⟨same, turn, extendTurn, answered⟩ := answers observer before middle updated
      have extended : middle.events = start ++ (added ++ turn) := by rw [extendTurn, extend, List.append_assoc]
      rw [← same] at settled answered ⊢
      refine ih extended (fun other subscribed passed => ?_) rest
      rw [lastHanded_append]
      rcases answered with ⟨sameValue, handedOver, quiet⟩ | everybody
      · -- Without a nested change, the others keep what they had been handed.
        rcases eq_or_ne other observer with rfl | different
        · rw [handedOver, Option.some_or, sameValue]
        · have earlier := (passed_behind subscribed passed).resolve_left different
          rw [quiet other different, Option.none_or, sameValue]
          exact settled other subscribed fun next found => Option.some.inj found ▸ earlier
      · rw [everybody other subscribed, Option.some_or]

theorem notify_settles {update : Observer → TType → Observed TType Observer Unit}
    (answers : Answering update)
    {fuel : Nat} {before after : ObservableValue TType Observer}
    (ran : (notify update fuel).run before = .ok () after) :
    after.subscriber = before.subscriber ∧ ∃ added, after.events = before.events ++ added ∧
      ∀ observer ∈ before.subscriber, lastHanded added observer = some after.value :=
  notifyFrom_settles answers (List.append_nil _).symm
    (fun _ subscribed passed => absurd passed (not_passed_first subscribed)) ran

/-- What `set` and `operator=` do if they come back. -/
def Settles (differs : TType → TType → Bool) (newValue : TType) (before after : ObservableValue TType Observer) : Prop :=
  (differs newValue before.value = false ∧ after = before) ∨
    after.subscriber = before.subscriber ∧ ∃ added, after.events = before.events ++ added ∧
      ∀ observer ∈ before.subscriber, lastHanded added observer = some after.get

theorem Settles.converges {differs : TType → TType → Bool} {before after : ObservableValue TType Observer}
    (settles : Settles differs newValue before after) : Converges before after := by
  rcases settles with ⟨_, rfl⟩ | ⟨same, added, extend, settled⟩
  · exact .refl after
  · exact ⟨same, added, extend, Or.inr settled⟩

theorem set_settles {differs : TType → TType → Bool} {update : Observer → TType → Observed TType Observer Unit}
    (answers : Answering update)
    {fuel : Nat} {before after : ObservableValue TType Observer}
    (ran : (set differs update fuel newValue).run before = .ok () after) : Settles differs newValue before after := by
  unfold set at ran
  simp only [EStateM.run_bind, EStateM.run_get, run_ite] at ran
  split at ran
  · exact Or.inr (@notify_settles _ _ _ _ answers _ { before with value := newValue } _ ran)
  · rename_i equal
    cases ran
    exact Or.inl ⟨Bool.eq_false_iff.mpr equal, rfl⟩

theorem assign_settles {differs : TType → TType → Bool} {update : Observer → TType → Observed TType Observer Unit}
    (answers : Answering update)
    {fuel : Nat} {before after : ObservableValue TType Observer}
    (ran : (assign differs update fuel newValue).run before = .ok () after) :
    Settles differs newValue before after := by
  unfold assign at ran
  simp only [EStateM.run_bind, EStateM.run_get, run_ite] at ran
  split at ran
  · exact set_settles answers ran
  · rename_i equal
    cases ran
    exact Or.inl ⟨Bool.eq_false_iff.mpr equal, rfl⟩

/-! ### The cascade -/

theorem perform_converges {differs : TType → TType → Bool} {update : Observer → TType → Observed TType Observer Unit}
    (answers : Answering update)
    {fuel : Nat} {call : ObservableCall TType Observer} {before after : ObservableValue TType Observer}
    (changes : call.Changes)
    (ran : (perform differs update fuel call).run before = .ok () after) : Converges before after := by
  cases call with
  | set newValue => exact (set_settles answers ran).converges
  | assign newValue => exact (assign_settles answers ran).converges
  | unsubscribe observer => exact changes.elim

theorem respond_converges {perform : ObservableCall TType Observer → Observed TType Observer Unit}
    (converges : ∀ call before after, call.Changes → (perform call).run before = .ok () after → Converges before after)
    {body : UpdateBody TType Observer} (changes : body.Makes ObservableCall.Changes)
    (before after : ObservableValue TType Observer) (ran : (respond perform body).run before = .ok () after) :
    Converges before after := by
  induction body generalizing before with
  | returns =>
    cases ran
    exact .refl after
  | calls call next ih =>
    have ran' : (do
        perform call
        let observable ← MonadState.get
        respond perform (next observable.events)).run (before.record (.called call)) = .ok () after := ran
    obtain ⟨_, middle, performed, rest⟩ := bind_returns.mp ran'
    have turn := converges call _ middle changes.1 performed
    exact ((converges_called before call).trans turn).trans (ih middle.events (changes.2 _) middle rest)

/-- By induction on how deep updates are nested. -/
theorem update_answers {differs : TType → TType → Bool}
    {react : Observer → List (ObservableEvent TType Observer) → UpdateBody TType Observer}
    (changes : ∀ observer events, (react observer events).Makes ObservableCall.Changes) (fuel : Nat) :
    Answering (update differs react fuel) := by
  intro observer before after ran
  induction fuel generalizing observer before after with
  | zero => cases ran
  | succ fuel ih =>
    have body := changes observer (before.record (.updated observer before.value)).events
    exact answers_of_converges (respond_converges (fun call before after => perform_converges ih) body _ _ ran)

/-- When a call comes back, nothing has happened or all observers agree with the value. -/
theorem observers_converge {differs : TType → TType → Bool}
    {react : Observer → List (ObservableEvent TType Observer) → UpdateBody TType Observer}
    (changes : ∀ observer events, (react observer events).Makes ObservableCall.Changes) (fuel : Nat) (newValue : TType)
    (before after : ObservableValue TType Observer) :
    ((set differs (update differs react fuel) fuel newValue).run before = .ok () after →
        Settles differs newValue before after) ∧
      ((assign differs (update differs react fuel) fuel newValue).run before = .ok () after →
        Settles differs newValue before after) :=
  ⟨set_settles (update_answers changes fuel), assign_settles (update_answers changes fuel)⟩

end Loop

/-- The second of two observers does not accept the value 5. -/
def correctingFive (observer : Nat) (events : List (ObservableEvent Nat Nat)) : UpdateBody Nat Nat :=
  match observer, events.getLast? with
  | 2, some (.updated _ 5) => .calls (.set 7) fun _ => .returns
  | _, _ => .returns

theorem correctingFive_changes (observer : Nat) (events : List (ObservableEvent Nat Nat)) :
    (correctingFive observer events).Makes ObservableCall.Changes := by
  unfold correctingFive
  split
  · exact ⟨trivial, fun _ => trivial⟩
  · trivial

def correctedEvents : List (ObservableEvent Nat Nat) :=
  [.updated 1 5, .updated 2 5, .called (.set 7), .updated 1 7, .updated 2 7]

theorem observers_converge_correctingFive :
    Settles (· != ·) 5 (⟨0, {1, 2}, []⟩ : ObservableValue Nat Nat) ⟨7, {1, 2}, correctedEvents⟩ :=
  (observers_converge correctingFive_changes 9 5 _ _).1 rfl

end ObservableValue
end Libftpp
