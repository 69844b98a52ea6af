import Libftpp.PersistentWorker

/-! The rounds of the persistent worker, its sleep and its end. A round goes
through the copy it began with, whatever the tasks throw and whatever happens to
the map meanwhile. The worker only falls asleep when it finds nothing to do, and
whoever gives it something to do afterwards notifies it; the destructor does so
in a step of its own, which is then still to come. -/
namespace Libftpp.PersistentWorker
open Threads
variable {Task : Type}

/-- The entries that the copy has left to start. -/
def left (worker : PersistentWorker Task) : List (String × Task) :=
  match worker.thread with
  | .round rest | .executing _ rest => rest
  | .testing | .waiting | .ended => []

/-- The entry whose task this step starts. -/
def starting (worker : PersistentWorker Task) (action : Action Task) : Option (String × Task) :=
  match action, worker.thread with
  | .next, .round (element :: _) => some element
  | _, _ => none

/-- The entries whose tasks are started in a run, in this order. -/
def started (worker : PersistentWorker Task) : List (Action Task) → List (String × Task)
  | [] => []
  | action :: actions =>
    (worker.starting action).toList ++
      match worker.step action with
      | none => []
      | some after => after.started actions

/-- The thread is in the `for` loop, or executes a task from there. -/
def InRound (worker : PersistentWorker Task) : Prop :=
  match worker.thread with
  | .round _ | .executing _ _ => True
  | .testing | .waiting | .ended => False

/-- The destructor has set the flag and not called `notify_one` yet. -/
def NotificationToCome (worker : PersistentWorker Task) : Prop := worker.closing = 1

/-! ### Rounds -/

theorem left_notified (worker : PersistentWorker Task) :
    ({ worker with thread := notified worker.thread } : PersistentWorker Task).left = worker.left := by
  unfold left notified
  cases worker.thread <;> rfl

/-- A step that makes no new copy starts what stands first in the copy, or
leaves it as it is. -/
theorem step_left {worker : PersistentWorker Task} {action : Action Task} (ran : worker.step action = some after) :
    ∃ notes, after.log = worker.log ++ notes ∧
      (.copied ∉ notes → (worker.starting action).toList ++ after.left = worker.left) := by
  cases step_transition ran with
  | added name jobToExecute there => exact ⟨[.added name], rfl, fun _ => worker.left_notified⟩
  | removed name there => exact ⟨[.removed name], rfl, fun _ => rfl⟩
  | copied order place all => exact ⟨[.copied], rfl, fun none => absurd (List.mem_singleton.mpr rfl) none⟩
  | started element rest place => exact ⟨[.started element.1], rfl, fun _ => by simp [left, starting, place]⟩
  | roundEnds place =>
    refine ⟨[], (List.append_nil _).symm, fun _ => ?_⟩
    cases worker.running <;> simp [left, starting, place]
  | woken place | stopped _ place _ | slept _ place _ _ | finished _ _ _ place =>
    exact ⟨[], (List.append_nil _).symm, fun _ => by simp [left, starting, place]⟩
  | flagged closing | joined closing place => exact ⟨[], (List.append_nil _).symm, fun _ => rfl⟩
  | notifying closing => exact ⟨[], (List.append_nil _).symm, fun _ => worker.left_notified⟩

/-- Until the next copy, what has been started and what is left are together what
was left before. -/
theorem run_left {worker : PersistentWorker Task} {actions : List (Action Task)}
    (ran : run step worker actions = some final) :
    ∃ notes, final.log = worker.log ++ notes ∧ (.copied ∉ notes → worker.started actions ++ final.left = worker.left) := by
  induction actions generalizing worker with
  | nil =>
    cases run_nil.mp ran
    exact ⟨[], (List.append_nil _).symm, fun _ => rfl⟩
  | cons action actions ih =>
    obtain ⟨after, stepped, rest⟩ := run_cons.mp ran
    obtain ⟨notes, logged, first⟩ := step_left stepped
    obtain ⟨later, logged', others⟩ := ih rest
    refine ⟨notes ++ later, by rw [logged', logged, List.append_assoc], ?_⟩
    intro none
    rw [List.mem_append, not_or] at none
    rw [started, stepped, List.append_assoc]
    dsimp only
    rw [others none.2, first none.1]

/-- A copy holds every entry of the map. -/
theorem test_left {worker : PersistentWorker Task} (ran : worker.test order = some copied) (began : copied.InRound) :
    copied.left.Perm worker.tasks := by
  cases test_transition ran with
  | copied _ place all => exact perm_of_order all
  | stopped _ place flag | slept _ place flag nothing => exact began.elim

/-! ### Sleep and end -/

/-- The thread sleeps only while there is nothing to do, or until the destructor
has notified it; and it has ended when the destructor has joined it. -/
structure Alert (worker : PersistentWorker Task) : Prop where
  flag : worker.running = false ↔ worker.closing ≠ 0
  asleep : worker.thread = .waiting → worker.tasks = [] ∧ worker.closing ≤ 1
  joined : worker.closing = 3 → worker.thread = .ended

theorem notified_ne_waiting (thread : Place Task) : notified thread ≠ .waiting := by
  cases thread <;> exact nofun

/-- The thread goes on from a place before its end to one where it is awake. -/
theorem Alert.moved {worker : PersistentWorker Task} (alert : Alert worker) (thread : Place Task) (cerr : List String)
    (log : List Note) (awake : thread ≠ .waiting) (before : worker.thread ≠ .ended) :
    Alert { worker with thread, cerr, log } where
  flag := alert.flag
  asleep sleeps := absurd sleeps awake
  joined closed := absurd (alert.joined closed) before

theorem Alert.step {worker : PersistentWorker Task} {action : Action Task} (alert : Alert worker)
    (ran : worker.step action = some after) : Alert after := by
  have cleared (closing : worker.closing ≠ 0) : worker.running = false := alert.flag.mpr closing
  cases step_transition ran with
  | added name jobToExecute there =>
    exact ⟨alert.flag, fun sleeps => absurd sleeps (notified_ne_waiting worker.thread), fun closed => absurd closed there⟩
  | removed name there =>
    refine ⟨alert.flag, fun sleeps => ?_, alert.joined⟩
    obtain ⟨nothing, early⟩ := alert.asleep sleeps
    refine ⟨?_, early⟩
    rw [removeTask, nothing]
    rfl
  | slept _ place flag nothing =>
    -- it falls asleep with the flag set and the map empty
    have early : worker.closing = 0 := by
      by_contra closing
      exact flag (cleared closing)
    exact ⟨alert.flag, fun _ => ⟨nothing, early.le.trans (Nat.zero_le 1)⟩, fun closed => absurd (early.symm.trans closed) nofun⟩
  | roundEnds place =>
    apply alert.moved _ _ _ _ (by simp [place])
    cases worker.running <;> exact nofun
  | woken place | stopped _ place _ | copied _ place _ | started _ _ place | finished _ _ _ place =>
    exact alert.moved _ _ _ nofun (by simp [place])
  | flagged closing =>
    exact ⟨⟨fun _ => Nat.one_ne_zero, fun _ => rfl⟩, fun sleeps => ⟨(alert.asleep sleeps).1, le_rfl⟩, nofun⟩
  | notifying closing =>
    exact ⟨⟨fun _ => Nat.succ_ne_zero 1, fun _ => cleared (by omega)⟩,
      fun sleeps => absurd sleeps (notified_ne_waiting worker.thread), nofun⟩
  | joined closing place =>
    exact ⟨⟨fun _ => Nat.succ_ne_zero 2, fun _ => cleared (by omega)⟩,
      fun sleeps => absurd (place.symm.trans sleeps) nofun, fun _ => place⟩

theorem Alert.reached {worker : PersistentWorker Task} {actions : List (Action Task)}
    (ran : run PersistentWorker.step new actions = some worker) : Alert worker := by
  have begins : Alert (new : PersistentWorker Task) := ⟨⟨nofun, fun never => absurd rfl never⟩, nofun, nofun⟩
  exact run_keeps (fun _ _ _ _ stepped alert => alert.step stepped) begins ran

/-- The notification takes the thread out of its sleep. -/
theorem notification_wakes {worker : PersistentWorker Task} (toCome : worker.NotificationToCome) :
    ∃ after, worker.step .destroy = some after ∧ after.thread ≠ .waiting := by
  refine ⟨{ worker with thread := notified worker.thread, closing := 2 }, ?_, notified_ne_waiting worker.thread⟩
  change worker.destroy = _
  unfold destroy
  rw [show worker.closing = 1 from toCome]
  rfl

/-- Once the destructor has joined the thread, nothing happens any more. -/
theorem step_of_joined {worker : PersistentWorker Task} (alert : Alert worker) (closed : worker.closing = 3)
    (action : Action Task) : worker.step action = none := by
  have ended := alert.joined closed
  cases action with
  | addTask | removeTask => exact if_pos closed
  | wake | test | next | finish => simp [step, wake, test, next, finish, ended]
  | destroy => simp [step, destroy, closed]

/-- The round that begins with a copy made here, up to the next copy: the tasks
started and those that are left are those registered now, each once; and none is
left when the round is over. -/
def RoundWhole (worker : PersistentWorker Task) : Prop :=
  ∀ order copied actions final notes, worker.step (.test order) = some copied → copied.InRound →
    run step copied actions = some final → final.log = copied.log ++ notes → .copied ∉ notes →
      (copied.started actions ++ final.left).Perm worker.tasks ∧
        (¬ final.InRound → (copied.started actions).Perm worker.tasks)

/-- The thread is blocked in `_cv.wait` although there is something to do, and
nobody is going to notify it. -/
def Oversleeps (worker : PersistentWorker Task) : Prop :=
  worker.thread = .waiting ∧ (worker.tasks ≠ [] ∨ worker.running = false) ∧ ¬ worker.NotificationToCome

theorem roundWhole (worker : PersistentWorker Task) : RoundWhole worker := by
  intro order copied actions final notes tests began goes logged none
  obtain ⟨notes', logged', conserved⟩ := run_left goes
  cases List.append_cancel_left (logged.symm.trans logged')
  have whole := conserved none
  constructor
  · rw [whole]
    exact test_left tests began
  · intro through
    have nothing : final.left = [] := by
      unfold InRound at through
      unfold left
      split at through <;> simp_all
    rw [nothing, List.append_nil] at whole
    rw [whole]
    exact test_left tests began

/-- In every interleaving: each round executes the tasks that were registered at
its copy exactly once, whatever they throw; the thread never sleeps through work
or through the shutdown; and no task is started once the destructor has joined
the thread. -/
theorem rounds_whole_and_awake {worker : PersistentWorker Task} {before : List (Action Task)}
    (reached : run step new before = some worker) :
    RoundWhole worker ∧ ¬ Oversleeps worker ∧ (worker.closing = 3 → ∀ actions, worker.started actions = []) := by
  have alert := Alert.reached reached
  refine ⟨roundWhole worker, ?_, ?_⟩
  · rintro ⟨sleeps, something, nobody⟩
    obtain ⟨nothing, early⟩ := alert.asleep sleeps
    rcases something with work | stopped
    · exact work nothing
    · have begun := alert.flag.mp stopped
      exact nobody (show worker.closing = 1 by omega)
  · intro closed actions
    cases actions with
    | nil => rfl
    | cons action actions =>
      have ended := alert.joined closed
      rw [started, step_of_joined alert closed]
      cases action <;> simp [starting, ended]

/-- Two tasks, of which the second throws, with a third registered meanwhile. -/
theorem rounds_whole_and_awake_throwing :
    ∃ worker copied final : PersistentWorker Unit,
      run step new [.addTask "a" (), .addTask "b" ()] = some worker ∧ worker.step (.test [1, 0]) = some copied ∧
      run step copied [.next, .addTask "c" (), .finish .returned, .next, .finish (.exception "no"), .next] = some final ∧
      ¬ final.InRound ∧
      (copied.started [.next, .addTask "c" (), .finish .returned, .next, .finish (.exception "no"), .next]).Perm
        [("a", ()), ("b", ())] := by
  refine ⟨_, _, _, rfl, rfl, rfl, id, ?_⟩
  have whole := (rounds_whole_and_awake (show run step (new : PersistentWorker Unit) [.addTask "a" (), .addTask "b" ()] =
    some ⟨[("a", ()), ("b", ())], true, .testing, 0, [], [.added "a", .added "b"]⟩ from rfl)).1
  exact (whole [1, 0] _ _ _ [.started "b", .added "c", .started "a"] rfl trivial rfl rfl (by decide)).2 id

end Libftpp.PersistentWorker
