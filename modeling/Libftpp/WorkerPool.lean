import Libftpp.Threads

/-! The worker pool (`worker_pool.cpp`) with any number of workers, of threads
that add jobs, and a thread that destroys it. A step is a section under the lock,
or what a thread does between two such sections. A worker waiting for the
condition variable may wake up without a notification. -/
namespace Libftpp

/-- Where a worker is in `WorkerPool::loop`. -/
inductive Worker (Job : Type) where
  /-- Before the test of `while (!_stop)`. -/
  | looping
  /-- Before the test of the predicate that `_cv.wait` is given, without the lock. -/
  | testing
  /-- In `_cv.wait`. -/
  | waiting
  | running (action : Job)
  | ended
  deriving DecidableEq

namespace Worker
variable {Job : Type}

def isWaiting : Worker Job → Bool
  | .waiting => true
  | .looping | .testing | .running _ | .ended => false

/-- The job that the worker is at. -/
def action : Worker Job → Option Job
  | .running action => some action
  | .looping | .testing | .waiting | .ended => none

/-- The worker after a `notify_all`. -/
def notified (worker : Worker Job) : Worker Job := if worker.isWaiting then .testing else worker

end Worker

/-- Where the destroying thread is in `WorkerPool::~WorkerPool`. -/
inductive Destructor where
  | outside
  | entered
  | stopped
  /-- Before the join of this worker. -/
  | joining (index : Nat)
  | returned
  deriving DecidableEq

/-- `class WorkerPool`. The threads between the push of a job and the call of
`notify_one` are counted. The last three components only record: the jobs added,
those taken out of the queue, and those executed to their end. -/
structure WorkerPool (Job : Type) where
  workers : List (Worker Job)
  jobs : List Job
  stop : Bool
  destructor : Destructor
  notifying : Nat
  pushed : List Job
  taken : List Job
  executed : List Job
  deriving DecidableEq

namespace WorkerPool
variable {Job : Type}

/-- `WorkerPool::WorkerPool`. -/
def new (nbWorkers : Nat) : WorkerPool Job where
  workers := List.replicate nbWorkers .looping
  jobs := []
  stop := false
  destructor := .outside
  notifying := 0
  pushed := []
  taken := []
  executed := []

/-- What the next step of the pool is. -/
inductive Action (Job : Type) where
  /-- Some thread pushes a job in `addJob`. -/
  | push (job : Job)
  /-- The thread goes on to `_cv.notify_one`, which wakes this worker. -/
  | notify (woken : Option Nat)
  /-- This worker wakes up without being notified. -/
  | wake (index : Nat)
  /-- This worker goes on in its loop. -/
  | loop (index : Nat)
  /-- The destroying thread goes on. -/
  | destroy
  deriving DecidableEq

/-- The section of `WorkerPool::loop` under the lock. -/
def takeJob (pool : WorkerPool Job) (index : Nat) : WorkerPool Job :=
  if pool.stop ∨ pool.jobs ≠ [] then
    if pool.stop then { pool with workers := pool.workers.set index .ended }
    else match pool.jobs with
      | [] => { pool with workers := pool.workers.set index .ended }
      | action :: rest => { pool with
          workers := pool.workers.set index (.running action)
          jobs := rest
          taken := pool.taken ++ [action] }
  else { pool with workers := pool.workers.set index .waiting }

/-- `WorkerPool::loop`, the next step of this worker. -/
def loop (pool : WorkerPool Job) (index : Nat) : Option (WorkerPool Job) :=
  match pool.workers[index]? with
  | some .looping => some { pool with workers := pool.workers.set index (if pool.stop then .ended else .testing) }
  | some .testing => some (pool.takeJob index)
  | some (.running action) => some { pool with
      workers := pool.workers.set index .looping
      executed := pool.executed ++ [action] }
  | some .waiting | some .ended | none => none

/-- `WorkerPool::~WorkerPool`, its next step. -/
def destroy (pool : WorkerPool Job) : Option (WorkerPool Job) :=
  match pool.destructor with
  | .outside => some { pool with destructor := .entered }
  | .entered => some { pool with stop := true, destructor := .stopped }
  | .stopped => some { pool with workers := pool.workers.map Worker.notified, destructor := .joining 0 }
  | .joining index =>
    match pool.workers[index]? with
    | none => some { pool with workers := [], jobs := [], destructor := .returned }
    | some .ended => some { pool with destructor := .joining (index + 1) }
    | some _ => none
  | .returned => none

/-- A worker waiting for the condition variable goes on. -/
def wake (pool : WorkerPool Job) (index : Nat) : Option (WorkerPool Job) :=
  match pool.workers[index]? with
  | some .waiting => some { pool with workers := pool.workers.set index .testing }
  | _ => none

/-- `_cv.notify_one` of a thread that has pushed a job. It wakes a worker if any
is waiting. -/
def notifyOne (pool : WorkerPool Job) (woken : Option Nat) : Option (WorkerPool Job) :=
  match pool.notifying with
  | 0 => none
  | others + 1 =>
    match woken with
    | some index => { pool with notifying := others }.wake index
    | none => if pool.workers.any Worker.isWaiting then none else some { pool with notifying := others }

/-- The section of `WorkerPool::addJob` under the lock. -/
def pushJob (pool : WorkerPool Job) (jobToExecute : Job) : WorkerPool Job := { pool with
  jobs := pool.jobs ++ [jobToExecute]
  notifying := pool.notifying + 1
  pushed := pool.pushed ++ [jobToExecute] }

/-- Jobs are added to a pool that exists. -/
def step (pool : WorkerPool Job) : Action Job → Option (WorkerPool Job)
  | .push job => if pool.destructor = .returned then none else some (pool.pushJob job)
  | .notify woken => if pool.destructor = .returned then none else pool.notifyOne woken
  | .wake index => pool.wake index
  | .loop index => pool.loop index
  | .destroy => pool.destroy

/-! ### What a step can do -/

/-- One worker goes from one place to another. -/
def Moves (pool : WorkerPool Job) (index : Nat) (old new : Worker Job) (workers : List (Worker Job)) : Prop :=
  pool.workers[index]? = some old ∧ workers = pool.workers.set index new

/-- All that a step can do. -/
inductive Step (pool : WorkerPool Job) : Action Job → WorkerPool Job → Prop where
  | pushed (there : pool.destructor ≠ .returned) (job : Job) : Step pool (.push job) (pool.pushJob job)
  | notified {index others : Nat} {workers : List (Worker Job)} (owed : pool.notifying = others + 1)
      (moves : pool.Moves index .waiting .testing workers) :
      Step pool (.notify (some index)) { pool with workers, notifying := others }
  | notifiedNone {others : Nat} (owed : pool.notifying = others + 1)
      (awake : ∀ worker ∈ pool.workers, worker.isWaiting = false) :
      Step pool (.notify none) { pool with notifying := others }
  | woken {index : Nat} {workers : List (Worker Job)} (moves : pool.Moves index .waiting .testing workers) :
      Step pool (.wake index) { pool with workers }
  | looped {index : Nat} {workers : List (Worker Job)}
      (moves : pool.Moves index .looping (if pool.stop then .ended else .testing) workers) :
      Step pool (.loop index) { pool with workers }
  | left {index : Nat} {workers : List (Worker Job)} (stop : pool.stop = true)
      (moves : pool.Moves index .testing .ended workers) : Step pool (.loop index) { pool with workers }
  | waited {index : Nat} {workers : List (Worker Job)} (stop : pool.stop = false) (idle : pool.jobs = [])
      (moves : pool.Moves index .testing .waiting workers) : Step pool (.loop index) { pool with workers }
  | took {index : Nat} {workers : List (Worker Job)} {action : Job} {rest : List Job} (stop : pool.stop = false)
      (queue : pool.jobs = action :: rest) (moves : pool.Moves index .testing (.running action) workers) :
      Step pool (.loop index) { pool with workers, jobs := rest, taken := pool.taken ++ [action] }
  | finished {index : Nat} {workers : List (Worker Job)} {action : Job}
      (moves : pool.Moves index (.running action) .looping workers) :
      Step pool (.loop index) { pool with workers, executed := pool.executed ++ [action] }
  | entered (outside : pool.destructor = .outside) : Step pool .destroy { pool with destructor := .entered }
  | stopped (entered : pool.destructor = .entered) :
      Step pool .destroy { pool with stop := true, destructor := .stopped }
  | notifiedAll (stopped : pool.destructor = .stopped) :
      Step pool .destroy { pool with workers := pool.workers.map Worker.notified, destructor := .joining 0 }
  | joined {index : Nat} (joining : pool.destructor = .joining index) (ended : pool.workers[index]? = some .ended) :
      Step pool .destroy { pool with destructor := .joining (index + 1) }
  | returned {index : Nat} (joining : pool.destructor = .joining index) (all : pool.workers.length ≤ index) :
      Step pool .destroy { pool with workers := [], jobs := [], destructor := .returned }

theorem takeJob_stopped {pool : WorkerPool Job} (stop : pool.stop = true) :
    pool.takeJob index = { pool with workers := pool.workers.set index .ended } := by
  rw [takeJob, if_pos (Or.inl stop), if_pos stop]

theorem takeJob_idle {pool : WorkerPool Job} (stop : pool.stop = false) (idle : pool.jobs = []) :
    pool.takeJob index = { pool with workers := pool.workers.set index .waiting } := by
  simp [takeJob, stop, idle]

theorem takeJob_next {pool : WorkerPool Job} (stop : pool.stop = false) (queue : pool.jobs = action :: rest) :
    pool.takeJob index = { pool with
      workers := pool.workers.set index (.running action)
      jobs := rest
      taken := pool.taken ++ [action] } := by
  simp [takeJob, stop, queue]

theorem loop_steps {pool : WorkerPool Job} (ran : pool.loop index = some after) :
    Step pool (.loop index) after := by
  unfold loop at ran
  cases here : pool.workers[index]? with
  | none => simp [here] at ran
  | some worker =>
    rw [here] at ran
    cases worker with
    | looping =>
      cases ran
      exact .looped ⟨here, rfl⟩
    | testing =>
      cases ran
      by_cases stop : pool.stop = true
      · rw [takeJob_stopped stop]
        exact .left stop ⟨here, rfl⟩
      rw [Bool.not_eq_true] at stop
      rcases queue : pool.jobs with _ | ⟨action, rest⟩
      · rw [takeJob_idle stop queue]
        exact .waited stop queue ⟨here, rfl⟩
      · rw [takeJob_next stop queue]
        exact .took stop queue ⟨here, rfl⟩
    | running action =>
      cases ran
      exact .finished ⟨here, rfl⟩
    | waiting => cases ran
    | ended => cases ran

theorem wake_moves {pool : WorkerPool Job} (ran : pool.wake index = some after) :
    ∃ workers, pool.Moves index .waiting .testing workers ∧ after = { pool with workers } := by
  unfold wake at ran
  split at ran
  · cases ran
    exact ⟨_, ⟨‹_›, rfl⟩, rfl⟩
  · cases ran

theorem notifyOne_steps {pool : WorkerPool Job} (ran : pool.notifyOne woken = some after) :
    Step pool (.notify woken) after := by
  unfold notifyOne at ran
  cases owed : pool.notifying with
  | zero =>
    rw [owed] at ran
    cases ran
  | succ others =>
    rw [owed] at ran
    cases woken with
    | some index =>
      obtain ⟨workers, moves, rfl⟩ := wake_moves ran
      exact .notified owed moves
    | none =>
      dsimp only at ran
      split at ran
      · cases ran
      · cases ran
        refine .notifiedNone owed fun worker member => ?_
        have none := ‹¬ pool.workers.any Worker.isWaiting = true›
        rw [Bool.not_eq_true, List.any_eq_false] at none
        simpa using none worker member

theorem destroy_steps {pool : WorkerPool Job} (ran : pool.destroy = some after) :
    Step pool .destroy after := by
  unfold destroy at ran
  cases phase : pool.destructor with
  | outside =>
    rw [phase] at ran
    cases ran
    exact .entered phase
  | entered =>
    rw [phase] at ran
    cases ran
    exact .stopped phase
  | stopped =>
    rw [phase] at ran
    cases ran
    exact .notifiedAll phase
  | joining index =>
    rw [phase] at ran
    dsimp only at ran
    split at ran
    · cases ran
      exact .returned phase (List.getElem?_eq_none_iff.mp ‹_›)
    · cases ran
      exact .joined phase ‹_›
    · cases ran
  | returned =>
    rw [phase] at ran
    cases ran

theorem step_steps {pool : WorkerPool Job} {action : Action Job} (ran : pool.step action = some after) :
    Step pool action after := by
  cases action with
  | push job =>
    dsimp only [step] at ran
    split at ran
    · cases ran
    · cases ran
      exact .pushed ‹_› job
  | notify woken =>
    dsimp only [step] at ran
    split at ran
    · cases ran
    · exact notifyOne_steps ran
  | wake index =>
    obtain ⟨workers, moves, rfl⟩ := wake_moves ran
    exact .woken moves
  | loop index => exact loop_steps ran
  | destroy => exact destroy_steps ran

end WorkerPool
end Libftpp
