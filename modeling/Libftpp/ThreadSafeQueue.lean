import Mathlib.Data.List.Induction
import Libftpp.DataBuffer
import Libftpp.Threads

/-! The queue shared by threads (`thread_safe_queue.hpp`). Each call is one
section under the lock, so what any number of threads do with it is a list of
calls, each with the thread that makes it: an interleaving of their programs. -/
namespace Libftpp
open Program Threads

/-- `class ThreadSafeQueue`. The front of the deque comes first. -/
structure ThreadSafeQueue (TType : Type) where
  queue : List TType
  deriving DecidableEq

namespace ThreadSafeQueue
variable {Thread TType α β : Type}

/-- `ThreadSafeQueue::push_back`. -/
def pushBack (newElement : TType) : Program Exn (ThreadSafeQueue TType) Unit :=
  modify fun shared => ⟨shared.queue ++ [newElement]⟩

/-- `ThreadSafeQueue::push_front`. -/
def pushFront (newElement : TType) : Program Exn (ThreadSafeQueue TType) Unit :=
  modify fun shared => ⟨newElement :: shared.queue⟩

/-- `ThreadSafeQueue::pop_back`. -/
def popBack : Program Exn (ThreadSafeQueue TType) TType := do
  let shared ← get
  match shared.queue.getLast? with
  | none => raise (.runtimeError "Trying to pop from an empty queue")
  | some value =>
    set (⟨shared.queue.dropLast⟩ : ThreadSafeQueue TType)
    pure value

/-- `ThreadSafeQueue::pop_front`. -/
def popFront : Program Exn (ThreadSafeQueue TType) TType := do
  let shared ← get
  match shared.queue with
  | [] => raise (.runtimeError "Trying to pop from an empty queue")
  | value :: rest =>
    set (⟨rest⟩ : ThreadSafeQueue TType)
    pure value

/-! ### Calls from many threads -/

inductive Call (TType : Type) where
  | pushBack (newElement : TType)
  | pushFront (newElement : TType)
  | popBack
  | popFront
  deriving DecidableEq

namespace Call

/-- The call, with what it returns if it returns a value. -/
def perform : Call TType → Program Exn (ThreadSafeQueue TType) (Option TType)
  | .pushBack newElement => do
    ThreadSafeQueue.pushBack newElement
    pure none
  | .pushFront newElement => do
    ThreadSafeQueue.pushFront newElement
    pure none
  | .popBack => some <$> ThreadSafeQueue.popBack
  | .popFront => some <$> ThreadSafeQueue.popFront

/-- What the call puts into the queue. -/
def pushed : Call TType → Option TType
  | .pushBack newElement | .pushFront newElement => some newElement
  | .popBack | .popFront => none

def isPop (call : Call TType) : Bool := call.pushed.isNone

/-- The queue is used from its two ends in one direction. -/
def isFifo : Call TType → Bool
  | .pushBack _ | .popFront => true
  | .pushFront _ | .popBack => false

def map (change : α → β) : Call α → Call β
  | .pushBack newElement => .pushBack (change newElement)
  | .pushFront newElement => .pushFront (change newElement)
  | .popBack => .popBack
  | .popFront => .popFront

end Call

/-- The queue, what has been pushed, and what successful pops have returned, each
in the order of the calls. -/
structure Session (TType : Type) where
  shared : ThreadSafeQueue TType
  pushed : List TType
  popped : List TType

namespace Session

def new : Session TType := ⟨⟨[]⟩, [], []⟩

/-- One call, made in its thread. -/
def step (session : Session TType) (turn : Thread × Call TType) : Session TType :=
  let pushed := session.pushed ++ turn.2.pushed.toList
  match turn.2.perform.run session.shared with
  | .ok value after => ⟨after, pushed, session.popped ++ value.toList⟩
  | .error _ after => ⟨after, pushed, session.popped⟩

def play (schedule : List (Thread × Call TType)) : Session TType := schedule.foldl step new

end Session

/-- What the call does to a queue, and the value it returns. -/
theorem perform_run (call : Call TType) (queue : List TType) :
    (∃ value after, call.perform.run ⟨queue⟩ = .ok value ⟨after⟩ ∧
      (call.pushed.toList ++ queue).Perm (value.toList ++ after) ∧
      (call.isFifo = true → queue ++ call.pushed.toList = value.toList ++ after)) ∨
    call.isPop = true ∧ queue = [] ∧ call.perform.run ⟨queue⟩ =
      .error (.thrown (.runtimeError "Trying to pop from an empty queue")) ⟨queue⟩ := by
  cases call with
  | pushBack newElement =>
    exact Or.inl ⟨none, queue ++ [newElement], rfl, List.perm_append_comm, fun _ => rfl⟩
  | pushFront newElement => exact Or.inl ⟨none, newElement :: queue, rfl, .refl _, nofun⟩
  | popBack =>
    rcases List.eq_nil_or_concat queue with rfl | ⟨rest, value, rfl⟩
    · exact Or.inr ⟨rfl, rfl, rfl⟩
    · refine Or.inl ⟨some value, rest, ?_, ?_, nofun⟩
      · simp [Call.perform, popBack]
      · rw [List.concat_eq_append]
        exact List.perm_append_singleton value rest
  | popFront =>
    cases queue with
    | nil => exact Or.inr ⟨rfl, rfl, rfl⟩
    | cons value rest => exact Or.inl ⟨some value, rest, rfl, .refl _, fun _ => List.append_nil _⟩

theorem pop_empty {call : Call TType} (isPop : call.isPop = true) :
    call.perform.run ⟨[]⟩ = .error (.thrown (.runtimeError "Trying to pop from an empty queue")) ⟨[]⟩ := by
  cases call with
  | pushBack | pushFront => cases isPop
  | popBack | popFront => rfl

/-! ### Nothing is lost -/

namespace Session

/-- What has been pushed has been popped or is in the queue. -/
def Balanced (session : Session TType) : Prop := session.pushed.Perm (session.popped ++ session.shared.queue)

/-- The same in order. -/
def InOrder (session : Session TType) : Prop := session.pushed = session.popped ++ session.shared.queue

theorem Balanced.step {session : Session TType} (balanced : Balanced session) (turn : Thread × Call TType) :
    Balanced (session.step turn) := by
  unfold Balanced Session.step
  rcases perform_run turn.2 session.shared.queue with ⟨value, after, ran, moved, _⟩ | ⟨isPop, _, ran⟩
  · rw [ran]
    change (session.pushed ++ turn.2.pushed.toList).Perm ((session.popped ++ value.toList) ++ after)
    rw [List.append_assoc]
    refine (balanced.append_right _).trans ?_
    rw [List.append_assoc]
    exact (List.perm_append_comm.trans moved).append_left _
  · rw [ran]
    have nothing : turn.2.pushed = none := Option.isNone_iff_eq_none.mp isPop
    change (session.pushed ++ turn.2.pushed.toList).Perm (session.popped ++ session.shared.queue)
    rw [nothing, Option.toList_none, List.append_nil]
    exact balanced

theorem InOrder.step {session : Session TType} (inOrder : InOrder session) (turn : Thread × Call TType)
    (fifo : turn.2.isFifo = true) : InOrder (session.step turn) := by
  unfold InOrder Session.step
  rcases perform_run turn.2 session.shared.queue with ⟨value, after, ran, _, ordered⟩ | ⟨isPop, _, ran⟩
  · rw [ran]
    change session.pushed ++ turn.2.pushed.toList = (session.popped ++ value.toList) ++ after
    rw [inOrder, List.append_assoc, List.append_assoc, ordered fifo]
  · rw [ran]
    have nothing : turn.2.pushed = none := Option.isNone_iff_eq_none.mp isPop
    change session.pushed ++ turn.2.pushed.toList = session.popped ++ session.shared.queue
    rw [nothing, Option.toList_none, List.append_nil]
    exact inOrder

theorem play_snoc (schedule : List (Thread × Call TType)) (turn : Thread × Call TType) :
    play (schedule ++ [turn]) = (play schedule).step turn := by
  rw [play, List.foldl_append]
  rfl

theorem balanced_play (schedule : List (Thread × Call TType)) : (play schedule).Balanced := by
  induction schedule using List.reverseRecOn with
  | nil => exact .refl _
  | append_singleton schedule turn ih =>
    rw [play_snoc]
    exact ih.step turn

theorem inOrder_play {schedule : List (Thread × Call TType)} (fifo : ∀ turn ∈ schedule, turn.2.isFifo = true) :
    (play schedule).InOrder := by
  induction schedule using List.reverseRecOn with
  | nil => rfl
  | append_singleton schedule turn ih =>
    rw [play_snoc]
    exact (ih fun other member => fifo other (List.mem_append_left _ member)).step turn
      (fifo turn (List.mem_append_right _ (List.mem_singleton.mpr rfl)))

theorem pushed_play (schedule : List (Thread × Call TType)) :
    (play schedule).pushed = schedule.filterMap fun turn => turn.2.pushed := by
  induction schedule using List.reverseRecOn with
  | nil => rfl
  | append_singleton schedule turn ih =>
    have grown : ((play schedule).step turn).pushed = (play schedule).pushed ++ turn.2.pushed.toList := by
      unfold Session.step
      dsimp only
      split <;> rfl
    rw [play_snoc, grown, ih, List.filterMap_append]
    cases pushes : turn.2.pushed <;> simp [pushes]

/-! ### The threads that pushed -/

def map (change : α → β) (session : Session α) : Session β :=
  ⟨⟨session.shared.queue.map change⟩, session.pushed.map change, session.popped.map change⟩

theorem pushed_map (change : α → β) (call : Call α) : (call.map change).pushed = call.pushed.map change := by
  cases call <;> rfl

/-- The code looks at no element. -/
theorem perform_map (change : α → β) (call : Call α) (queue : List α) :
    (call.map change).perform.run ⟨queue.map change⟩ =
      match call.perform.run ⟨queue⟩ with
      | .ok value after => .ok (value.map change) ⟨after.queue.map change⟩
      | .error halt after => .error halt ⟨after.queue.map change⟩ := by
  cases call with
  | pushBack newElement =>
    change EStateM.Result.ok none (ThreadSafeQueue.mk (queue.map change ++ [change newElement])) =
      .ok none ⟨(queue ++ [newElement]).map change⟩
    rw [List.map_append, List.map_singleton]
  | pushFront newElement => rfl
  | popBack =>
    rcases List.eq_nil_or_concat queue with rfl | ⟨rest, value, rfl⟩
    · rfl
    · simp [Call.map, Call.perform, popBack]
  | popFront => cases queue <;> rfl

theorem step_map (change : α → β) (session : Session α) (thread : Thread) (call : Call α) :
    (session.map change).step (thread, call.map change) = (session.step (thread, call)).map change := by
  have same := perform_map change call session.shared.queue
  unfold step
  dsimp only [map] at same ⊢
  rw [same, pushed_map]
  cases ran : call.perform.run session.shared with
  | ok value after => cases value <;> cases call.pushed <;> simp
  | error halt after => cases call.pushed <;> simp

/-- Every element with the thread that pushes it. -/
def tagged (schedule : List (Thread × Call TType)) : List (Thread × Call (Thread × TType)) :=
  schedule.map fun turn => (turn.1, turn.2.map fun element => (turn.1, element))

/-- What the pops return, each with the thread that pushed it: the tags travel
through the same queue. -/
def origins (schedule : List (Thread × Call TType)) : List (Thread × TType) := (play (tagged schedule)).popped

theorem play_tagged (schedule : List (Thread × Call TType)) : (play (tagged schedule)).map Prod.snd = play schedule := by
  induction schedule using List.reverseRecOn with
  | nil => rfl
  | append_singleton schedule turn ih =>
    have same := step_map Prod.snd (play (tagged schedule)) turn.1 (turn.2.map fun element => (turn.1, element))
    have untagged : (turn.2.map fun element => (turn.1, element)).map Prod.snd = turn.2 := by
      cases turn.2 <;> rfl
    rw [untagged, ih] at same
    have split : tagged (schedule ++ [turn]) = tagged schedule ++ [(turn.1, turn.2.map fun element => (turn.1, element))] :=
      List.map_append
    rw [split, play_snoc, play_snoc]
    exact same.symm

/-- What one thread has pushed. -/
theorem pushed_tagged [DecidableEq Thread] (schedule : List (Thread × Call TType)) (producer : Thread) :
    ((play (tagged schedule)).pushed.filter fun origin => origin.1 = producer).map Prod.snd =
      (part producer schedule).filterMap Call.pushed := by
  rw [pushed_play]
  induction schedule with
  | nil => rfl
  | cons turn schedule ih =>
    obtain ⟨thread, call⟩ := turn
    have tags : (call.map fun element => (thread, element)).pushed = call.pushed.map fun element => (thread, element) :=
      pushed_map ..
    rw [tagged, List.map_cons, List.filterMap_cons]
    dsimp only
    rw [tags]
    by_cases own : thread = producer
    · subst own
      rw [part_cons_own]
      cases pushes : call.pushed with
      | none =>
        rw [List.filterMap_cons_none pushes]
        exact ih
      | some element =>
        rw [List.filterMap_cons_some pushes, Option.map_some, List.filter_cons_of_pos (by simp), List.map_cons]
        exact congrArg (element :: ·) ih
    · rw [part_cons_other own]
      cases call.pushed with
      | none => exact ih
      | some element =>
        rw [Option.map_some, List.filter_cons_of_neg (by simpa using own)]
        exact ih

/-- Whatever the threads do, in whatever order: what has been pushed has been
popped or is in the queue; a pop throws exactly on the empty queue and leaves it
so; and where all push at the back and pop at the front, what was pushed by one
thread is popped in the order in which that thread pushed it. -/
theorem loses_nothing [DecidableEq Thread] (schedule : List (Thread × Call TType)) :
    (play schedule).pushed.Perm ((play schedule).popped ++ (play schedule).shared.queue) ∧
      (∀ call : Call TType, call.isPop = true →
        ((∃ halt after, call.perform.run (play schedule).shared = .error halt after) ↔
          (play schedule).shared.queue = []) ∧
        ∀ halt after, call.perform.run (play schedule).shared = .error halt after →
          halt = .thrown (.runtimeError "Trying to pop from an empty queue") ∧ after = (play schedule).shared) ∧
      ((∀ turn ∈ schedule, turn.2.isFifo = true) →
        (origins schedule).map Prod.snd = (play schedule).popped ∧
          ∀ producer, ((origins schedule).filter fun origin => origin.1 = producer).map Prod.snd <+:
            (part producer schedule).filterMap Call.pushed) := by
  refine ⟨balanced_play schedule, fun call isPop => ?_, fun fifo => ⟨?_, fun producer => ?_⟩⟩
  · rcases perform_run call (play schedule).shared.queue with ⟨value, after, ran, _, _⟩ | ⟨_, empty, ran⟩
    · refine ⟨⟨?_, fun empty => ?_⟩, fun halt later threw => ?_⟩
      · rintro ⟨halt, later, threw⟩
        cases ran.symm.trans threw
      · rw [empty] at ran
        cases ran.symm.trans (pop_empty isPop)
      · cases ran.symm.trans threw
    · refine ⟨⟨fun _ => empty, fun _ => ⟨_, _, ran⟩⟩, fun halt later threw => ?_⟩
      cases ran.symm.trans threw
      exact ⟨rfl, rfl⟩
  · rw [← play_tagged schedule]
    rfl
  · have tags : ∀ turn ∈ tagged schedule, turn.2.isFifo = true := by
      intro turn member
      obtain ⟨original, listed, rfl⟩ := List.mem_map.mp member
      have same := fifo original listed
      revert same
      cases original.2 <;> exact id
    have ordered := inOrder_play tags
    rw [← pushed_tagged, ordered, List.filter_append, List.map_append]
    exact List.prefix_append ..

end Session

end ThreadSafeQueue
end Libftpp
