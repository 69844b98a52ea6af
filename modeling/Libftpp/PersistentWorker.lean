import Mathlib.Data.List.Nodup
import Mathlib.Data.List.Perm.Basic
import Mathlib.Data.List.Range
import Libftpp.Threads

/-! The persistent worker (`persistent_worker.cpp`). Its thread copies the map of
tasks under the lock and goes through the copy without it, so a task removed after
the copy was made may still be started, once, from what is left of the copy. -/
namespace Libftpp
open Threads

/-- Where the thread is in `PersistentWorker::loop`. -/
inductive PersistentWorker.Place (Task : Type) where
  /-- Before the test of the predicate that `_cv.wait` is given, without the lock. -/
  | testing
  /-- In `_cv.wait`. -/
  | waiting
  /-- In the `for` loop, with these entries of the copy to come. -/
  | round (rest : List (String × Task))
  | executing (element : String × Task) (rest : List (String × Task))
  | ended
  deriving DecidableEq

/-- How a call of a task ends. -/
inductive PersistentWorker.Outcome where
  | returned
  | exception (what : String)
  | unknown
  deriving DecidableEq

/-- What the threads do, as far as it concerns the tasks. -/
inductive PersistentWorker.Note where
  | added (name : String)
  | removed (name : String)
  | copied
  | started (name : String)
  deriving DecidableEq

/-- `class PersistentWorker`. `closing` counts the steps its destructor has made,
and the last component only records. -/
structure PersistentWorker (Task : Type) where
  tasks : List (String × Task)
  running : Bool
  thread : PersistentWorker.Place Task
  closing : Nat
  cerr : List String
  log : List PersistentWorker.Note
  deriving DecidableEq

namespace PersistentWorker
variable {Task : Type}

/-- `PersistentWorker::PersistentWorker`. -/
def new : PersistentWorker Task where
  tasks := []
  running := true
  thread := .testing
  closing := 0
  cerr := []
  log := []

/-- What the next step is. -/
inductive Action (Task : Type) where
  | addTask (name : String) (jobToExecute : Task)
  | removeTask (name : String)
  /-- The thread wakes up without being notified. -/
  | wake
  /-- The thread tests the predicate; if it copies the map, the entries come in this order. -/
  | test (order : List Nat)
  /-- The thread starts the next task, or ends the round. -/
  | next
  /-- The task that is being executed ends. -/
  | finish (outcome : Outcome)
  /-- The destroying thread goes on. -/
  | destroy
  deriving DecidableEq

/-- `_cv.notify_one`, with one thread that may be waiting. -/
def notified (thread : Place Task) : Place Task :=
  match thread with
  | .waiting => .testing
  | .testing => .testing
  | .round rest => .round rest
  | .executing element rest => .executing element rest
  | .ended => .ended

/-- `PersistentWorker::addTask`. -/
def addTask (worker : PersistentWorker Task) (name : String) (jobToExecute : Task) : PersistentWorker Task :=
  { worker with
    tasks := worker.tasks.filter (fun entry => entry.1 ≠ name) ++ [(name, jobToExecute)]
    thread := notified worker.thread
    log := worker.log ++ [.added name] }

/-- `PersistentWorker::removeTask`. -/
def removeTask (worker : PersistentWorker Task) (name : String) : PersistentWorker Task :=
  { worker with
    tasks := worker.tasks.filter fun entry => entry.1 ≠ name
    log := worker.log ++ [.removed name] }

/-- The first section of `PersistentWorker::loop` under the lock. -/
def test (worker : PersistentWorker Task) (order : List Nat) : Option (PersistentWorker Task) :=
  match worker.thread with
  | .testing =>
    if worker.running = false ∨ worker.tasks ≠ [] then
      if worker.running = false then some { worker with thread := .ended }
      else if order.Perm (List.range worker.tasks.length) then some { worker with
        thread := .round (order.filterMap fun place => worker.tasks[place]?)
        log := worker.log ++ [.copied] }
      else none
    else some { worker with thread := .waiting }
  | .waiting | .round _ | .executing _ _ | .ended => none

/-- The head of the `for` loop, and after its last turn the section under the
lock at the end of the `while` loop. -/
def next (worker : PersistentWorker Task) : Option (PersistentWorker Task) :=
  match worker.thread with
  | .round (element :: rest) => some { worker with
      thread := .executing element rest
      log := worker.log ++ [.started element.1] }
  | .round [] =>
    let keepGoing := worker.running
    some { worker with thread := if keepGoing then .testing else .ended }
  | .testing | .waiting | .executing _ _ | .ended => none

/-- What is written about a task that does not return. -/
def complaint (name : String) : Outcome → List String
  | .returned => []
  | .exception what => ["[PersistentWorker] Task '" ++ name ++ "' threw an exception: " ++ what ++ "\n"]
  | .unknown => ["[PersistentWorker] Task '" ++ name ++ "' threw an unknown exception.\n"]

/-- The end of a turn of the `for` loop. -/
def finish (worker : PersistentWorker Task) (outcome : Outcome) : Option (PersistentWorker Task) :=
  match worker.thread with
  | .executing element rest => some { worker with
      thread := .round rest
      cerr := worker.cerr ++ complaint element.1 outcome }
  | .testing | .waiting | .round _ | .ended => none

/-- `PersistentWorker::~PersistentWorker`, its next step: the flag, the
notification, the join. -/
def destroy (worker : PersistentWorker Task) : Option (PersistentWorker Task) :=
  match worker.closing with
  | 0 => some { worker with running := false, closing := 1 }
  | 1 => some { worker with thread := notified worker.thread, closing := 2 }
  | 2 => match worker.thread with
    | .ended => some { worker with closing := 3 }
    | .testing | .waiting | .round _ | .executing _ _ => none
  | _ => none

/-- The thread goes on from `_cv.wait`. -/
def wake (worker : PersistentWorker Task) : Option (PersistentWorker Task) :=
  match worker.thread with
  | .waiting => some { worker with thread := .testing }
  | .testing | .round _ | .executing _ _ | .ended => none

/-- Tasks are added to and removed from a worker that exists. -/
def step (worker : PersistentWorker Task) : Action Task → Option (PersistentWorker Task)
  | .addTask name jobToExecute => if worker.closing = 3 then none else some (worker.addTask name jobToExecute)
  | .removeTask name => if worker.closing = 3 then none else some (worker.removeTask name)
  | .wake => worker.wake
  | .test order => worker.test order
  | .next => worker.next
  | .finish outcome => worker.finish outcome
  | .destroy => worker.destroy

/-- The names of the tasks that the copy has left to start. -/
def upcoming (worker : PersistentWorker Task) : List String :=
  match worker.thread with
  | .round rest | .executing _ rest => rest.map Prod.fst
  | .testing | .waiting | .ended => []

/-! ### What a step can do -/

/-- Every step there is, with the condition under which the code makes it. -/
inductive Transition (worker : PersistentWorker Task) : Action Task → PersistentWorker Task → Prop where
  | added (name : String) (jobToExecute : Task) (there : worker.closing ≠ 3) :
      Transition worker (.addTask name jobToExecute) (worker.addTask name jobToExecute)
  | removed (name : String) (there : worker.closing ≠ 3) :
      Transition worker (.removeTask name) (worker.removeTask name)
  | woken (place : worker.thread = .waiting) : Transition worker .wake { worker with thread := .testing }
  | stopped (order : List Nat) (place : worker.thread = .testing) (flag : worker.running = false) :
      Transition worker (.test order) { worker with thread := .ended }
  | copied (order : List Nat) (place : worker.thread = .testing)
      (all : order.Perm (List.range worker.tasks.length)) : Transition worker (.test order)
        { worker with
          thread := .round (order.filterMap fun place => worker.tasks[place]?)
          log := worker.log ++ [.copied] }
  | slept (order : List Nat) (place : worker.thread = .testing) (flag : worker.running ≠ false)
      (nothing : worker.tasks = []) : Transition worker (.test order) { worker with thread := .waiting }
  | started (element : String × Task) (rest : List (String × Task)) (place : worker.thread = .round (element :: rest)) :
      Transition worker .next
        { worker with thread := .executing element rest, log := worker.log ++ [.started element.1] }
  | roundEnds (place : worker.thread = .round []) :
      Transition worker .next { worker with thread := if worker.running then .testing else .ended }
  | finished (outcome : Outcome) (element : String × Task) (rest : List (String × Task))
      (place : worker.thread = .executing element rest) : Transition worker (.finish outcome)
        { worker with thread := .round rest, cerr := worker.cerr ++ complaint element.1 outcome }
  | flagged (closing : worker.closing = 0) : Transition worker .destroy { worker with running := false, closing := 1 }
  | notifying (closing : worker.closing = 1) :
      Transition worker .destroy { worker with thread := notified worker.thread, closing := 2 }
  | joined (closing : worker.closing = 2) (place : worker.thread = .ended) :
      Transition worker .destroy { worker with closing := 3 }

theorem test_transition {worker : PersistentWorker Task} (ran : worker.test order = some after) :
    Transition worker (.test order) after := by
  unfold test at ran
  split at ran
  · rename_i place
    split at ran
    · split at ran
      · cases ran
        exact .stopped order place ‹_›
      · split at ran <;> cases ran
        exact .copied order place ‹_›
    · rename_i idle
      rw [not_or, not_ne_iff] at idle
      cases ran
      exact .slept order place idle.1 idle.2
  all_goals cases ran

theorem destroy_transition {worker : PersistentWorker Task} (ran : worker.destroy = some after) :
    Transition worker .destroy after := by
  unfold destroy at ran
  split at ran
  · cases ran
    exact .flagged ‹_›
  · cases ran
    exact .notifying ‹_›
  · split at ran <;> cases ran
    exact .joined ‹_› ‹_›
  · cases ran

theorem step_transition {worker : PersistentWorker Task} {action : Action Task}
    (ran : worker.step action = some after) : Transition worker action after := by
  cases action with
  | addTask name jobToExecute =>
    obtain ⟨there, same⟩ := Option.ite_none_left_eq_some.mp ran
    cases same
    exact .added name jobToExecute there
  | removeTask name =>
    obtain ⟨there, same⟩ := Option.ite_none_left_eq_some.mp ran
    cases same
    exact .removed name there
  | wake =>
    replace ran : worker.wake = some after := ran
    unfold wake at ran
    split at ran <;> cases ran
    exact .woken ‹_›
  | test order => exact test_transition ran
  | next =>
    replace ran : worker.next = some after := ran
    unfold next at ran
    split at ran <;> cases ran
    · exact .started _ _ ‹_›
    · exact .roundEnds ‹_›
  | finish outcome =>
    replace ran : worker.finish outcome = some after := ran
    unfold finish at ran
    split at ran <;> cases ran
    exact .finished outcome _ _ ‹_›
  | destroy => exact destroy_transition ran

/-- What a step does to the tasks, to what is left of the copy, and to the log. -/
inductive Step (worker after : PersistentWorker Task) : Action Task → Prop where
  | added (name : String) (jobToExecute : Task)
      (tasks : after.tasks = worker.tasks.filter (fun entry => entry.1 ≠ name) ++ [(name, jobToExecute)])
      (upcoming : after.upcoming = worker.upcoming) (log : after.log = worker.log ++ [.added name]) :
      Step worker after (.addTask name jobToExecute)
  | removed (name : String) (tasks : after.tasks = worker.tasks.filter fun entry => entry.1 ≠ name)
      (upcoming : after.upcoming = worker.upcoming) (log : after.log = worker.log ++ [.removed name]) :
      Step worker after (.removeTask name)
  | copied (order : List Nat) (tasks : after.tasks = worker.tasks)
      (upcoming : after.upcoming.Perm (worker.tasks.map Prod.fst)) (log : after.log = worker.log ++ [.copied]) :
      Step worker after (.test order)
  | started (name : String) (tasks : after.tasks = worker.tasks) (upcoming : worker.upcoming = name :: after.upcoming)
      (log : after.log = worker.log ++ [.started name]) : Step worker after .next
  | other {action : Action Task} (tasks : after.tasks = worker.tasks) (upcoming : after.upcoming = worker.upcoming)
      (log : after.log = worker.log) : Step worker after action

theorem upcoming_notified (worker : PersistentWorker Task) :
    ({ worker with thread := notified worker.thread } : PersistentWorker Task).upcoming = worker.upcoming := by
  unfold upcoming notified
  cases worker.thread <;> rfl

theorem filterMap_places {α : Type} (items : List α) :
    ((List.range items.length).filterMap fun place => items[place]?) = items := by
  induction items using List.reverseRecOn with
  | nil => rfl
  | append_singleton items last ih =>
    have before : ((List.range items.length).filterMap fun place => (items ++ [last])[place]?) =
        (List.range items.length).filterMap fun place => items[place]? :=
      List.filterMap_congr fun place member => List.getElem?_append_left (List.mem_range.mp member)
    rw [List.length_append, List.length_singleton, List.range_succ, List.filterMap_append, before, ih]
    simp

/-- Going through a list in some order of its places meets every element once. -/
theorem perm_of_order {α : Type} {items : List α} {order : List Nat} (all : order.Perm (List.range items.length)) :
    (order.filterMap fun place => items[place]?).Perm items := by
  have places := all.filterMap fun place => items[place]?
  rwa [filterMap_places] at places

theorem step_steps {worker : PersistentWorker Task} {action : Action Task} (ran : worker.step action = some after) :
    Step worker after action := by
  cases step_transition ran with
  | added name jobToExecute there => exact .added name jobToExecute rfl worker.upcoming_notified rfl
  | removed name there => exact .removed name rfl rfl rfl
  | copied order place all => exact .copied order rfl ((perm_of_order all).map _) rfl
  | started element rest place =>
    have left : worker.upcoming = (element :: rest).map Prod.fst := by rw [upcoming, place]
    exact .started element.1 rfl left rfl
  | roundEnds place =>
    refine .other rfl ?_ rfl
    rw [upcoming, upcoming, place]
    cases worker.running <;> rfl
  | woken place | stopped _ place _ | slept _ place _ _ | finished _ _ _ place =>
    refine .other rfl ?_ rfl
    rw [upcoming, upcoming, place]
  | flagged closing | joined closing place => exact .other rfl rfl rfl
  | notifying closing => exact .other rfl worker.upcoming_notified rfl

/-! ### Removed tasks -/

/-- A name is registered once, and is in the copy at most once. -/
structure Distinct (worker : PersistentWorker Task) : Prop where
  tasks : (worker.tasks.map Prod.fst).Nodup
  upcoming : worker.upcoming.Nodup

theorem Distinct.step {worker : PersistentWorker Task} {action : Action Task} (distinct : Distinct worker)
    (step : Step worker after action) : Distinct after := by
  have erased (name : String) : ((worker.tasks.filter fun entry => entry.1 ≠ name).map Prod.fst).Nodup :=
    distinct.tasks.sublist (List.filter_sublist.map _)
  cases step with
  | added name jobToExecute tasks upcoming log =>
    constructor
    · rw [tasks, List.map_append, List.map_singleton]
      apply List.Nodup.append (erased name) (List.nodup_singleton _)
      intro other member same
      cases List.mem_singleton.mp same
      obtain ⟨entry, kept, rfl⟩ := List.mem_map.mp member
      simpa using (List.mem_filter.mp kept).2
    · rw [upcoming]
      exact distinct.upcoming
  | removed name tasks upcoming log =>
    constructor
    · rw [tasks]
      exact erased name
    · rw [upcoming]
      exact distinct.upcoming
  | copied order tasks upcoming log =>
    constructor
    · rw [tasks]
      exact distinct.tasks
    · exact upcoming.nodup_iff.mpr distinct.tasks
  | started name tasks upcoming log =>
    constructor
    · rw [tasks]
      exact distinct.tasks
    · have before := distinct.upcoming
      rw [upcoming] at before
      exact (List.nodup_cons.mp before).2
  | other tasks upcoming log =>
    constructor
    · rw [tasks]
      exact distinct.tasks
    · rw [upcoming]
      exact distinct.upcoming

/-- How often the task of this name is started. -/
def starts (name : String) (log : List Note) : Nat := log.count (.started name)

/-- The task of this name is not started once the map has been copied. -/
def NoneAfterCopy (name : String) (log : List Note) : Prop :=
  ∀ first last, log = first ++ .copied :: last → .started name ∉ last

theorem NoneAfterCopy.snoc {log : List Note} {note : Note} (none : NoneAfterCopy name log) (early : note = .started name → .copied ∉ log) :
    NoneAfterCopy name (log ++ [note]) := by
  intro first last shape started
  rcases List.eq_nil_or_concat last with rfl | ⟨middle, final, rfl⟩
  · cases started
  · rw [List.concat_eq_append, ← List.cons_append, ← List.append_assoc] at shape
    obtain ⟨rfl, same⟩ := List.append_inj' shape rfl
    cases same
    rcases List.mem_append.mp (List.concat_eq_append ▸ started) with before | last
    · exact none first middle rfl before
    · exact early (List.mem_singleton.mp last).symm (List.mem_append_right _ (List.mem_cons_self ..))

/-- After a removal, as long as the name is not added again: the task is not
registered, and has been started at most as often as it was left in the copy when
it was removed, and never since the next copy. -/
structure Barred (name : String) (allowed : Nat) (earlier : List Note) (worker : PersistentWorker Task)
    (since : List Note) : Prop where
  gone : name ∉ worker.tasks.map Prod.fst
  log : worker.log = earlier ++ since
  bound : starts name since + worker.upcoming.count name ≤ allowed
  copied : .copied ∈ since → name ∉ worker.upcoming
  none : NoneAfterCopy name since

theorem not_registered {tasks : List (String × Task)} {name other : String} (gone : name ∉ tasks.map Prod.fst) :
    name ∉ (tasks.filter fun entry => entry.1 ≠ other).map Prod.fst :=
  fun member => gone ((List.filter_sublist.map Prod.fst).subset member)

/-- A note that is neither a start nor a copy, of something that does not register the name. -/
theorem Barred.noted {worker after : PersistentWorker Task} (barred : Barred name allowed earlier worker since) {note : Note}
    (gone : name ∉ after.tasks.map Prod.fst) (upcoming : after.upcoming = worker.upcoming)
    (log : after.log = worker.log ++ [note]) (start : note ≠ .started name) (copy : note ≠ .copied)
    (silent : starts name [note] = 0) : Barred name allowed earlier after (since ++ [note]) where
  gone := gone
  log := by rw [log, barred.log, List.append_assoc]
  bound := by
    have bound := barred.bound
    rw [starts] at bound silent ⊢
    rw [List.count_append, silent, upcoming]
    exact bound
  copied := by
    rw [upcoming]
    exact fun listed => barred.copied ((List.mem_append.mp listed).resolve_right fun last =>
      copy (List.mem_singleton.mp last).symm)
  none := barred.none.snoc fun same => absurd same start

theorem Barred.step {worker : PersistentWorker Task} {action : Action Task} (barred : Barred name allowed earlier worker since)
    (step : Step worker after action) (quiet : ∀ job, action ≠ .addTask name job) :
    ∃ later, Barred name allowed earlier after later := by
  cases step with
  | added other jobToExecute tasks upcoming log =>
    have apart : other ≠ name := fun same => quiet jobToExecute (by rw [same])
    refine ⟨since ++ [.added other], barred.noted ?_ upcoming log nofun nofun rfl⟩
    rw [tasks, List.map_append, List.mem_append]
    rintro (before | added)
    · exact not_registered barred.gone before
    · exact apart (List.mem_singleton.mp added).symm
  | removed other tasks upcoming log =>
    refine ⟨since ++ [.removed other], barred.noted ?_ upcoming log nofun nofun rfl⟩
    rw [tasks]
    exact not_registered barred.gone
  | copied order tasks upcoming log =>
    have absent : name ∉ after.upcoming := fun listed => barred.gone (upcoming.mem_iff.mp listed)
    refine ⟨since ++ [.copied], ?_, ?_, ?_, fun _ => absent, barred.none.snoc nofun⟩
    · rw [tasks]
      exact barred.gone
    · rw [log, barred.log, List.append_assoc]
    · have bound := barred.bound
      rw [starts, List.count_append, List.count_eq_zero.mpr absent]
      exact (Nat.le_add_right ..).trans bound
  | started other tasks upcoming log =>
    refine ⟨since ++ [.started other], ?_, ?_, ?_, ?_, barred.none.snoc ?_⟩
    · rw [tasks]
      exact barred.gone
    · rw [log, barred.log, List.append_assoc]
    · have bound := barred.bound
      rw [upcoming, List.count_cons, starts] at bound
      rw [starts, List.count_append, List.count_singleton]
      by_cases same : other = name
      · subst same
        simp only [beq_self_eq_true, if_true] at bound ⊢
        omega
      · have apart : Note.started other ≠ .started name := fun again => same (Note.started.inj again)
        simp only [beq_eq_false_iff_ne.mpr same, beq_eq_false_iff_ne.mpr apart, Bool.false_eq_true, if_false] at bound ⊢
        omega
    · intro listed held
      apply barred.copied (by simpa using listed)
      rw [upcoming]
      exact List.mem_cons_of_mem _ held
    · rintro ⟨⟩ listed
      apply barred.copied listed
      rw [upcoming]
      exact List.mem_cons_self ..
  | other tasks upcoming log =>
    refine ⟨since, ?_, log.trans barred.log, ?_, ?_, barred.none⟩
    · rw [tasks]
      exact barred.gone
    · rw [upcoming]
      exact barred.bound
    · rw [upcoming]
      exact barred.copied

/-- Once `removeTask` has returned and until the name is added again, the worker
starts the task at most once more, and that only if it was left in the copy of the
map that the worker was going through; after its next copy it does not start it. -/
theorem started_at_most_once {used removed final : PersistentWorker Task} {before after : List (Action Task)}
    (reached : run step new before = some used) (removes : used.step (.removeTask name) = some removed)
    (goes : run step removed after = some final) (quiet : ∀ job, .addTask name job ∉ after) :
    ∃ since, final.log = removed.log ++ since ∧ starts name since ≤ used.upcoming.count name ∧
      used.upcoming.count name ≤ 1 ∧ NoneAfterCopy name since := by
  have nothing : Distinct (new : PersistentWorker Task) := ⟨List.nodup_nil, List.nodup_nil⟩
  have distinct : Distinct used :=
    run_keeps (fun _ _ _ _ stepped distinct => distinct.step (step_steps stepped)) nothing reached
  have start : Barred name (used.upcoming.count name) removed.log removed [] := by
    dsimp only [step] at removes
    split at removes <;> cases removes
    refine ⟨?_, (List.append_nil _).symm, (Nat.zero_add _).le, nofun, fun first last shape => by simp at shape⟩
    intro listed
    obtain ⟨entry, kept, same⟩ := List.mem_map.mp listed
    have apart := (List.mem_filter.mp kept).2
    simp [same] at apart
  have keeps : ∃ since, Barred name (used.upcoming.count name) removed.log final since := by
    refine @run_keeps _ _ _ _ _ step (fun worker => ∃ since, Barred name (used.upcoming.count name) removed.log worker since)
      (fun earlier action later member stepped ⟨since, barred⟩ => ?_) ⟨[], start⟩ goes
    apply barred.step (step_steps stepped)
    rintro job rfl
    exact quiet job member
  obtain ⟨since, barred⟩ := keeps
  exact ⟨since, barred.log, (Nat.le_add_right ..).trans barred.bound, List.nodup_iff_count_le_one.mp distinct.upcoming name,
    barred.none⟩

/-- The task is removed while it is executed, and not started again. -/
theorem started_at_most_once_executing :
    ∃ final : PersistentWorker Unit, final.log = [.added "a", .copied, .started "a", .removed "a"] ∧
      ∃ since, final.log = [.added "a", .copied, .started "a", .removed "a"] ++ since ∧ starts "a" since ≤ 0 := by
  have reached : run step (new : PersistentWorker Unit) [.addTask "a" (), .test [0], .next] =
      some ⟨[("a", ())], true, .executing ("a", ()) [], 0, [], [.added "a", .copied, .started "a"]⟩ := rfl
  have removes : step (⟨[("a", ())], true, .executing ("a", ()) [], 0, [], [.added "a", .copied, .started "a"]⟩ :
      PersistentWorker Unit) (.removeTask "a") =
      some ⟨[], true, .executing ("a", ()) [], 0, [], [.added "a", .copied, .started "a", .removed "a"]⟩ := rfl
  have goes : run step (⟨[], true, .executing ("a", ()) [], 0, [], [.added "a", .copied, .started "a", .removed "a"]⟩ :
      PersistentWorker Unit) [.finish .returned, .next, .test []] =
      some ⟨[], true, .waiting, 0, [], [.added "a", .copied, .started "a", .removed "a"]⟩ := rfl
  obtain ⟨since, log, few, _, _⟩ := started_at_most_once reached removes goes (fun job listed => by simp at listed)
  exact ⟨_, rfl, since, log, few⟩

/-- The task is removed after the copy and before it is reached. -/
theorem removed_task_started :
    ¬ ∀ (name : String) (used removed final : PersistentWorker Unit) (before after : List (Action Unit)) (since : List Note),
      run step new before = some used → used.step (.removeTask name) = some removed →
      run step removed after = some final → (∀ job, .addTask name job ∉ after) →
      final.log = removed.log ++ since → .started name ∉ since := by
  intro holds
  exact holds "a" ⟨[("a", ())], true, .round [("a", ())], 0, [], [.added "a", .copied]⟩
    ⟨[], true, .round [("a", ())], 0, [], [.added "a", .copied, .removed "a"]⟩
    ⟨[], true, .executing ("a", ()) [], 0, [], [.added "a", .copied, .removed "a", .started "a"]⟩
    [.addTask "a" (), .test [0]] [.next] [.started "a"] rfl rfl rfl (fun job listed => by simp at listed) rfl
    (List.mem_singleton.mpr rfl)

end PersistentWorker
end Libftpp
