import Libftpp.ObservableValue

/-! Observers that leave while they are told of a change (`observable_value.hpp`).
The loop of `notify` can go on when others have left, before or behind it. It
cannot when the observer whose turn it is has left itself: the iterator is at an
element that is no longer there. -/
namespace Libftpp
open Program

namespace ObservableValue

variable {TType Observer : Type}

/-- The observers that have been updated, in turn. -/
def updatedIn (events : List (ObservableEvent TType Observer)) : List Observer :=
  events.filterMap fun
    | .updated observer _ => some observer
    | .called _ => none

@[simp] theorem updatedIn_nil : updatedIn ([] : List (ObservableEvent TType Observer)) = [] := rfl

@[simp] theorem updatedIn_updated (observer : Observer) (newValue : TType)
    (events : List (ObservableEvent TType Observer)) :
    updatedIn (.updated observer newValue :: events) = observer :: updatedIn events := rfl

@[simp] theorem updatedIn_append (events more : List (ObservableEvent TType Observer)) :
    updatedIn (events ++ more) = updatedIn events ++ updatedIn more := List.filterMap_append

theorem mem_updatedIn {events : List (ObservableEvent TType Observer)} :
    observer ∈ updatedIn events ↔ ∃ newValue, .updated observer newValue ∈ events := by
  unfold updatedIn
  rw [List.mem_filterMap]
  constructor
  · rintro ⟨event, member, found⟩
    cases event with
    | updated other newValue =>
      cases found
      exact ⟨newValue, member⟩
    | called call => cases found
  · exact fun ⟨newValue, member⟩ => ⟨_, member, rfl⟩

/-- Between two updates there are only calls. -/
theorem updatedIn_calls {events : List (ObservableEvent TType Observer)}
    (calls : ∀ event ∈ events, ∃ call, event = .called call) : updatedIn events = [] := by
  refine List.filterMap_eq_nil_iff.mpr fun event member => ?_
  obtain ⟨call, rfl⟩ := calls event member
  rfl

section Turns
variable [LinearOrder Observer]

/-- The events of a run over these subscribers: at most one update each, in their
order, none after the observer has been taken out, and where there is none, the
observer has been taken out before its turn. -/
structure InTurn (subscriber : Finset Observer) (events : List (ObservableEvent TType Observer)) : Prop where
  once : (updatedIn events).Pairwise (· < ·)
  subscribed : ∀ observer ∈ updatedIn events, observer ∈ subscriber
  still : events.Pairwise fun earlier later => ∀ observer newValue,
    earlier = .called (.unsubscribe (some observer)) → later ≠ .updated observer newValue
  missing : ∀ observer ∈ subscriber, observer ∉ updatedIn events →
    ∃ earlier later, events = earlier ++ .called (.unsubscribe (some observer)) :: later ∧
      ∀ other ∈ updatedIn earlier, other < observer

/-- The effect of an update that takes observers out. -/
def depart : UpdateBody TType Observer → ObservableValue TType Observer → ObservableValue TType Observer
  | .calls (.unsubscribe observer) next, observable =>
    let left := unsubscribe observer (record (.called (.unsubscribe observer)) observable)
    depart (next left.events) left
  | _, observable => observable

/-- The turn of an observer. -/
def takeTurn (react : Observer → List (ObservableEvent TType Observer) → UpdateBody TType Observer)
    (observer : Observer) (observable : ObservableValue TType Observer) : ObservableValue TType Observer :=
  let told := record (.updated observer observable.value) observable
  depart (react observer told.events) told

/-- No observer whose turn comes takes itself out in it. -/
def NoneLeavesInTurn (react : Observer → List (ObservableEvent TType Observer) → UpdateBody TType Observer) :
    List Observer → ObservableValue TType Observer → Prop
  | [], _ => True
  | observer :: pending, observable =>
    if observer ∈ observable.subscriber then
      observer ∈ (takeTurn react observer observable).subscriber ∧
        NoneLeavesInTurn react pending (takeTurn react observer observable)
    else NoneLeavesInTurn react pending observable

/-- The turns of all that are still there. -/
def allTurns (react : Observer → List (ObservableEvent TType Observer) → UpdateBody TType Observer) :
    List Observer → ObservableValue TType Observer → ObservableValue TType Observer
  | [], observable => observable
  | observer :: pending, observable =>
    if observer ∈ observable.subscriber then allTurns react pending (takeTurn react observer observable)
    else allTurns react pending observable

/-! ### One turn -/

/-- The events of one turn, and who is still there behind it. -/
structure TurnOf (before after : ObservableValue TType Observer) (added : List (ObservableEvent TType Observer)) :
    Prop where
  extend : after.events = before.events ++ added
  calls : ∀ event ∈ added, ∃ call, event = .called call
  remain : ∀ observer, observer ∈ after.subscriber ↔
    observer ∈ before.subscriber ∧ .called (.unsubscribe (some observer)) ∉ added

theorem depart_turn (body : UpdateBody TType Observer) (observable : ObservableValue TType Observer) :
    ∃ added, TurnOf observable (depart body observable) added := by
  induction body generalizing observable with
  | returns => exact ⟨[], by simp [depart], by simp, by simp [depart]⟩
  | calls call next ih =>
    cases call with
    | set newValue => exact ⟨[], by simp [depart], by simp, by simp [depart]⟩
    | assign newValue => exact ⟨[], by simp [depart], by simp, by simp [depart]⟩
    | unsubscribe leaver =>
      obtain ⟨added, extend, calls, remain⟩ :=
        ih (unsubscribe leaver (record (.called (.unsubscribe leaver)) observable)).events
          (unsubscribe leaver (record (.called (.unsubscribe leaver)) observable))
      refine ⟨.called (.unsubscribe leaver) :: added, ?_, ?_, fun observer => ?_⟩
      · rw [depart, extend]
        cases leaver <;> simp [unsubscribe, record]
      · rintro event (_ | ⟨_, later⟩)
        · exact ⟨_, rfl⟩
        · exact calls event later
      · rw [depart, remain]
        cases leaver with
        | none => simp [unsubscribe, record]
        | some leaver =>
          simp [unsubscribe, record]
          tauto

theorem respond_depart {differs : TType → TType → Bool} {update : Observer → TType → Observed TType Observer Unit}
    {body : UpdateBody TType Observer} (leaves : body.Makes ObservableCall.Leaves) (fuel : Nat)
    (observable : ObservableValue TType Observer) :
    (respond (perform differs update fuel) body).run observable = .ok () (depart body observable) := by
  induction body generalizing observable with
  | returns => rfl
  | calls call next ih =>
    cases call with
    | set newValue => exact leaves.1.elim
    | assign newValue => exact leaves.1.elim
    | unsubscribe leaver => exact ih _ (leaves.2 _) _

theorem update_takeTurn {differs : TType → TType → Bool}
    {react : Observer → List (ObservableEvent TType Observer) → UpdateBody TType Observer}
    (leaves : ∀ observer events, (react observer events).Makes ObservableCall.Leaves) (fuel : Nat) (observer : Observer)
    (observable : ObservableValue TType Observer) :
    (update differs react (fuel + 1) observer observable.value).run observable =
      .ok () (takeTurn react observer observable) :=
  respond_depart (leaves observer _) fuel _

theorem takeTurn_turn (react : Observer → List (ObservableEvent TType Observer) → UpdateBody TType Observer)
    (observer : Observer) (observable : ObservableValue TType Observer) :
    ∃ added, TurnOf (record (.updated observer observable.value) observable) (takeTurn react observer observable) added :=
  depart_turn _ _

theorem takeTurn_subset (react : Observer → List (ObservableEvent TType Observer) → UpdateBody TType Observer)
    (observer : Observer) (observable : ObservableValue TType Observer) :
    (takeTurn react observer observable).subscriber ⊆ observable.subscriber := by
  obtain ⟨added, turn⟩ := takeTurn_turn react observer observable
  exact fun other remains => ((turn.remain other).mp remains).1

theorem depart_keeps {body : UpdateBody TType Observer} (others : body.Makes (· ≠ .unsubscribe (some observer)))
    {observable : ObservableValue TType Observer} (member : observer ∈ observable.subscriber) :
    observer ∈ (depart body observable).subscriber := by
  induction body generalizing observable with
  | returns => exact member
  | calls call next ih =>
    cases call with
    | set newValue => exact member
    | assign newValue => exact member
    | unsubscribe leaver =>
      refine ih _ (others.2 _) ?_
      cases leaver with
      | none => exact member
      | some leaver =>
        have different : observer ≠ leaver := by
          rintro rfl
          exact others.1 rfl
        exact Finset.mem_erase.mpr ⟨different, member⟩

/-- Observers that take out others only. -/
theorem noneLeavesInTurn_of_others
    {react : Observer → List (ObservableEvent TType Observer) → UpdateBody TType Observer}
    (others : ∀ observer events, (react observer events).Makes (· ≠ .unsubscribe (some observer)))
    (pending : List Observer) (observable : ObservableValue TType Observer) :
    NoneLeavesInTurn react pending observable := by
  induction pending generalizing observable with
  | nil => trivial
  | cons observer pending ih =>
    unfold NoneLeavesInTurn
    split
    · exact ⟨depart_keeps (others observer _) ‹_›, ih _⟩
    · exact ih _

/-! ### The loop -/

theorem first_eq_of_least {subscriber : Finset Observer} (member : observer ∈ subscriber)
    (least : ∀ other ∈ subscriber, observer ≤ other) : first subscriber = some observer := by
  cases found : first subscriber with
  | none => simp [first_none found] at member
  | some other =>
    obtain ⟨there, below⟩ := first_some found
    rw [le_antisymm (below observer member) (least other there)]

/-- The first element of a part of the set, when a list in order has that part. -/
theorem first_eq_find {pending : List Observer} (sorted : pending.Pairwise (· < ·)) {part subscriber : Finset Observer}
    (covered : ∀ observer ∈ part, observer ∈ pending)
    (within : ∀ observer ∈ pending, (observer ∈ part ↔ observer ∈ subscriber)) :
    first part = pending.find? (· ∈ subscriber) := by
  induction pending with
  | nil =>
    have empty : part = ∅ := Finset.eq_empty_of_forall_notMem fun observer member => by simpa using covered observer member
    rw [empty]
    rfl
  | cons observer pending ih =>
    have here := within observer (by simp)
    by_cases member : observer ∈ subscriber
    · rw [List.find?_cons_of_pos (by simpa using member)]
      refine first_eq_of_least (here.mpr member) fun other there => ?_
      rcases List.mem_cons.mp (covered other there) with rfl | later
      · exact le_refl other
      · exact le_of_lt (List.rel_of_pairwise_cons sorted later)
    · rw [List.find?_cons_of_neg (by simpa using member)]
      refine ih sorted.of_cons (fun other there => ?_) fun other later => within other (by simp [later])
      rcases List.mem_cons.mp (covered other there) with rfl | later
      · exact absurd (here.mp there) member
      · exact later

/-- All subscribers are pending or have had their turn. -/
def Ahead (pending : List Observer) (subscriber : Finset Observer) : Prop :=
  ∀ observer ∈ subscriber, observer ∈ pending ∨ ∀ later ∈ pending, observer < later

theorem Ahead.tail {pending : List Observer} (sorted : (observer :: pending).Pairwise (· < ·))
    {subscriber remaining : Finset Observer} (ahead : Ahead (observer :: pending) subscriber)
    (subset : remaining ⊆ subscriber) : Ahead pending remaining := by
  intro other remains
  rcases ahead other (subset remains) with member | before
  · rcases List.mem_cons.mp member with rfl | later
    · exact Or.inr fun later there => List.rel_of_pairwise_cons sorted there
    · exact Or.inl later
  · exact Or.inr fun later there => before later (by simp [there])

theorem behind_eq_find {pending : List Observer} (sorted : (observer :: pending).Pairwise (· < ·))
    {subscriber : Finset Observer} (ahead : Ahead (observer :: pending) subscriber) {remaining : Finset Observer}
    (subset : remaining ⊆ subscriber) : behind remaining observer = pending.find? (· ∈ remaining) := by
  refine first_eq_find sorted.of_cons (fun other there => ?_) fun other later => ?_
  · obtain ⟨remains, beyond⟩ := Finset.mem_filter.mp there
    rcases ahead other (subset remains) with member | before
    · exact (List.mem_cons.mp member).resolve_left (ne_of_gt beyond)
    · exact absurd (before observer (by simp)) (not_lt_of_gt beyond)
  · simp [List.rel_of_pairwise_cons sorted later]

/-! ### All turns -/

/-- A turn, and then the turns of those that it has left there. -/
theorem InTurn.turn {part remaining : Finset Observer} {turn later : List (ObservableEvent TType Observer)}
    (others : InTurn remaining later) (calls : ∀ event ∈ turn, ∃ call, event = .called call) (member : observer ∈ part)
    (kept : ∀ other ∈ remaining, other ∈ part ∧ observer < other ∧ .called (.unsubscribe (some other)) ∉ turn)
    (covered : ∀ other ∈ part, other ≠ observer →
      observer < other ∧ (other ∈ remaining ∨ .called (.unsubscribe (some other)) ∈ turn)) (newValue : TType) :
    InTurn part (.updated observer newValue :: (turn ++ later)) where
  once := by
    simp only [updatedIn_updated, updatedIn_append, updatedIn_calls calls, List.nil_append, List.pairwise_cons]
    exact ⟨fun other updated => (kept other (others.subscribed other updated)).2.1, others.once⟩
  subscribed := by
    simp only [updatedIn_updated, updatedIn_append, updatedIn_calls calls, List.nil_append, List.mem_cons]
    rintro other (rfl | updated)
    · exact member
    · exact (kept other (others.subscribed other updated)).1
  still := by
    refine List.pairwise_cons.mpr ⟨fun event _ other newValue same => (by cases same), ?_⟩
    refine List.pairwise_append.mpr ⟨?_, others.still, ?_⟩
    · refine List.Pairwise.imp_of_mem (fun _ second _ other newValue _ => ?_) (List.pairwise_of_forall fun _ _ => trivial)
      obtain ⟨call, rfl⟩ := calls _ second
      nofun
    · rintro earlier there event here other newValue rfl rfl
      exact (kept other (others.subscribed other (mem_updatedIn.mpr ⟨newValue, here⟩))).2.2 there
  missing := by
    simp only [updatedIn_updated, updatedIn_append, updatedIn_calls calls, List.nil_append, List.mem_cons, not_or]
    rintro other there ⟨different, skipped⟩
    obtain ⟨beyond, remains | left⟩ := covered other there different
    · obtain ⟨before, after, split, passed⟩ := others.missing other remains skipped
      refine ⟨.updated observer newValue :: (turn ++ before), after, by simp [split], ?_⟩
      simpa [updatedIn_calls calls] using ⟨beyond, passed⟩
    · obtain ⟨before, after, split⟩ := List.append_of_mem left
      have quiet : updatedIn before = [] := updatedIn_calls fun event member => calls event (by simp [split, member])
      exact ⟨.updated observer newValue :: before, after ++ later, by simp [split], by simpa [quiet] using beyond⟩

theorem allTurns_inTurn (react : Observer → List (ObservableEvent TType Observer) → UpdateBody TType Observer)
    {pending : List Observer} (sorted : pending.Pairwise (· < ·)) (observable : ObservableValue TType Observer) :
    ∃ added, (allTurns react pending observable).events = observable.events ++ added ∧
      InTurn (observable.subscriber.filter (· ∈ pending)) added := by
  induction pending generalizing observable with
  | nil => exact ⟨[], by simp [allTurns], by simp, by simp, by simp, by simp⟩
  | cons observer pending ih =>
    unfold allTurns
    have beyond (other : Observer) : other ∈ pending → observer < other := List.rel_of_pairwise_cons sorted
    by_cases member : observer ∈ observable.subscriber
    · rw [if_pos member]
      obtain ⟨turn, extend, calls, remain⟩ := takeTurn_turn react observer observable
      obtain ⟨later, extendLater, others⟩ := ih sorted.of_cons (takeTurn react observer observable)
      refine ⟨.updated observer observable.value :: (turn ++ later), ?_, others.turn calls ?_ ?_ ?_ _⟩
      · simp [extendLater, extend, record]
      · simp [member]
      · intro other there
        simp only [Finset.mem_filter, remain] at there
        exact ⟨by simpa [record, there.2] using there.1.1, beyond other there.2, there.1.2⟩
      · intro other there different
        simp only [Finset.mem_filter, List.mem_cons, different, false_or] at there
        refine ⟨beyond other there.2, ?_⟩
        simp only [Finset.mem_filter, remain, there.2, and_true]
        exact Classical.byCases Or.inr fun stays => Or.inl ⟨there.1, stays⟩
    · rw [if_neg member]
      obtain ⟨added, extend, others⟩ := ih sorted.of_cons observable
      have same : observable.subscriber.filter (· ∈ observer :: pending) = observable.subscriber.filter (· ∈ pending) := by
        ext other
        simp only [Finset.mem_filter, List.mem_cons]
        grind
      exact ⟨added, extend, same ▸ others⟩

/-! ### Notifications -/

theorem ahead_sort (subscriber : Finset Observer) : Ahead subscriber.sort subscriber := fun _ member =>
  Or.inl ((Finset.mem_sort _).mpr member)

theorem first_eq_find_sort (subscriber : Finset Observer) : first subscriber = subscriber.sort.find? (· ∈ subscriber) :=
  first_eq_find subscriber.sortedLT_sort.pairwise (fun _ member => (Finset.mem_sort _).mpr member) fun _ _ => Iff.rfl

variable {differs : TType → TType → Bool}
  {react : Observer → List (ObservableEvent TType Observer) → UpdateBody TType Observer}
  (leaves : ∀ observer events, (react observer events).Makes ObservableCall.Leaves)
include leaves

theorem notifyFrom_allTurns {pending : List Observer} (sorted : pending.Pairwise (· < ·))
    {observable : ObservableValue TType Observer} (ahead : Ahead pending observable.subscriber)
    (staying : NoneLeavesInTurn react pending observable) {depth rounds : Nat} (enough : pending.length ≤ rounds) :
    (notifyFrom (update differs react (depth + 1)) rounds (pending.find? (· ∈ observable.subscriber))).run observable =
      .ok () (allTurns react pending observable) := by
  induction pending generalizing observable rounds with
  | nil => cases rounds <;> rfl
  | cons observer pending ih =>
    unfold NoneLeavesInTurn at staying
    unfold allTurns
    by_cases member : observer ∈ observable.subscriber
    · rw [if_pos member] at staying ⊢
      rw [List.find?_cons_of_pos (by simpa using member)]
      have subset := takeTurn_subset react observer observable
      obtain ⟨fewer, rfl⟩ : ∃ fewer, rounds = fewer + 1 := ⟨rounds - 1, by simp at enough; omega⟩
      refine notifyFrom_round.mpr ⟨_, update_takeTurn leaves depth observer observable, staying.1, ?_⟩
      rw [behind_eq_find sorted ahead subset]
      exact ih sorted.of_cons (ahead.tail sorted subset) staying.2 (by simpa using enough)
    · rw [if_neg member] at staying ⊢
      rw [List.find?_cons_of_neg (by simpa using member)]
      exact ih sorted.of_cons (ahead.tail sorted (Finset.Subset.refl _)) staying (by simp at enough; omega)

theorem staying_of_returns {pending : List Observer} (sorted : pending.Pairwise (· < ·))
    {observable : ObservableValue TType Observer} (ahead : Ahead pending observable.subscriber) {depth rounds : Nat}
    (ran : (notifyFrom (update differs react depth) rounds (pending.find? (· ∈ observable.subscriber))).run observable =
      .ok () after) : NoneLeavesInTurn react pending observable := by
  induction pending generalizing observable rounds with
  | nil => trivial
  | cons observer pending ih =>
    unfold NoneLeavesInTurn
    by_cases member : observer ∈ observable.subscriber
    · rw [if_pos member]
      rw [List.find?_cons_of_pos (by simpa using member)] at ran
      cases rounds with
      | zero => cases ran
      | succ rounds =>
        obtain ⟨middle, updated, remains, rest⟩ := notifyFrom_round.mp ran
        cases depth with
        | zero => cases updated
        | succ depth =>
          rw [update_takeTurn leaves] at updated
          cases updated
          have subset := takeTurn_subset react observer observable
          rw [behind_eq_find sorted ahead subset] at rest
          exact ⟨remains, ih sorted.of_cons (ahead.tail sorted subset) rest⟩
    · rw [if_neg member]
      rw [List.find?_cons_of_neg (by simpa using member)] at ran
      exact ih sorted.of_cons (ahead.tail sorted (Finset.Subset.refl _)) ran

/-- A notification comes back and updates each subscriber that is there in its
turn exactly if none of these takes itself out. -/
theorem notify_inTurn_iff (before : ObservableValue TType Observer) :
    (∃ fuel after added, (notify (update differs react fuel) fuel).run before = .ok () after ∧
      after.events = before.events ++ added ∧ InTurn before.subscriber added) ↔
      NoneLeavesInTurn react before.subscriber.sort before := by
  have sorted := before.subscriber.sortedLT_sort.pairwise
  have entered (fuel : Nat) : (notify (update differs react fuel) fuel).run before =
      (notifyFrom (update differs react fuel) fuel (before.subscriber.sort.find? (· ∈ before.subscriber))).run before := by
    rw [← first_eq_find_sort]
    rfl
  constructor
  · rintro ⟨fuel, after, added, ran, _⟩
    rw [entered] at ran
    exact staying_of_returns leaves sorted (ahead_sort before.subscriber) ran
  · intro staying
    obtain ⟨added, extend, turns⟩ := allTurns_inTurn react sorted before
    have everyone : before.subscriber.filter (· ∈ before.subscriber.sort) = before.subscriber := by simp
    rw [everyone] at turns
    refine ⟨before.subscriber.sort.length + 1, _, added, ?_, extend, turns⟩
    rw [entered]
    exact notifyFrom_allTurns leaves sorted (ahead_sort before.subscriber) staying (Nat.le_succ _)

end Turns

/-- Each observer takes out the next one. -/
def takingOutNext (observer : Nat) (_ : List (ObservableEvent Nat Nat)) : UpdateBody Nat Nat :=
  .calls (.unsubscribe (some (observer + 1))) fun _ => .returns

/-- Each observer wants to be updated once. -/
def leavingOnUpdate (observer : Nat) (_ : List (ObservableEvent Nat Nat)) : UpdateBody Nat Nat :=
  .calls (.unsubscribe (some observer)) fun _ => .returns

theorem notify_inTurn_takingOutNext :
    ∃ fuel after added,
      (notify (update (· != ·) takingOutNext fuel) fuel).run (⟨5, {1, 2, 3}, []⟩ : ObservableValue Nat Nat) = .ok () after ∧
      after.events = [] ++ added ∧ InTurn {1, 2, 3} added := by
  have leaves : ∀ observer events, (takingOutNext observer events).Makes ObservableCall.Leaves :=
    fun _ _ => ⟨trivial, fun _ => trivial⟩
  have others : ∀ observer events, (takingOutNext observer events).Makes (· ≠ .unsubscribe (some observer)) :=
    fun observer _ => ⟨by simp, fun _ => trivial⟩
  exact (notify_inTurn_iff leaves ⟨5, {1, 2, 3}, []⟩).mpr (noneLeavesInTurn_of_others others _ _)

/-- The only observer leaves, and the loop goes on from where it was. -/
theorem notify_from_erased :
    (∀ observer events, (leavingOnUpdate observer events).Makes ObservableCall.Leaves) ∧
      ¬ ∃ fuel after added,
        (notify (update (· != ·) leavingOnUpdate fuel) fuel).run (⟨5, {1}, []⟩ : ObservableValue Nat Nat) = .ok () after ∧
        after.events = [] ++ added ∧ InTurn {1} added := by
  refine ⟨fun _ _ => ⟨trivial, fun _ => trivial⟩, ?_⟩
  rintro ⟨fuel, after, added, ran, _⟩
  cases fuel with
  | zero => cases ran
  | succ fuel =>
    have stopped : (notify (update (· != ·) leavingOnUpdate (fuel + 1)) (fuel + 1)).run
        (⟨5, {1}, []⟩ : ObservableValue Nat Nat) =
        .error .undefined ⟨5, ∅, [.updated 1 5, .called (.unsubscribe (some 1))]⟩ := rfl
    rw [stopped] at ran
    cases ran

end ObservableValue
end Libftpp
