import Libftpp.WorkerPool

/-! What holds of a worker pool in every run. Until the pool is stopped, a job is
in the queue or has been taken, and no worker sleeps while a job waits and nobody
is left to be notified. Once it is stopped nothing is taken any more: what is in
the queue then is dropped, so the destructor completes the work exactly when it
finds nothing there. -/
namespace Libftpp.WorkerPool
open Threads
variable {Job : Type} {action : Action Job} {source target : Worker Job} {workers : List (Worker Job)}

/-! ### Invariants -/

/-- The jobs in the queue are those pushed that no worker has taken. -/
def Fifo (pool : WorkerPool Job) : Prop :=
  pool.destructor ≠ .returned → pool.taken ++ pool.jobs = pool.pushed

/-- A job taken is being executed or has been. -/
def Accounted (pool : WorkerPool Job) : Prop :=
  (pool.workers.filterMap Worker.action ++ pool.executed).Perm pool.taken

/-- The flag is set by the destructor alone. -/
def Stopping (pool : WorkerPool Job) : Prop :=
  pool.stop = false ↔ pool.destructor = .outside ∨ pool.destructor = .entered

/-- Before the stop, some worker is awake while a job waits, or somebody has yet
to notify one. -/
def Attended (pool : WorkerPool Job) : Prop :=
  pool.stop = false → pool.jobs ≠ [] → 0 < pool.notifying ∨ ∃ worker ∈ pool.workers, worker.isWaiting = false

/-- All workers have been called, and those joined have ended. -/
def Called (pool : WorkerPool Job) : Prop :=
  ∀ index, pool.destructor = .joining index →
    (∀ worker ∈ pool.workers, worker.isWaiting = false) ∧ ∀ worker ∈ pool.workers.take index, worker = .ended

theorem Step.fifo {pool : WorkerPool Job} (step : Step pool action after) (fifo : Fifo pool) : Fifo after := by
  cases step with
  | pushed there job =>
    intro _
    change pool.taken ++ (pool.jobs ++ [job]) = pool.pushed ++ [job]
    rw [← List.append_assoc, fifo there]
  | took stop queue moves =>
    intro there
    have same := fifo there
    rw [queue] at same
    change (pool.taken ++ [_]) ++ _ = pool.pushed
    rw [List.append_assoc, List.singleton_append]
    exact same
  | entered outside => exact fun _ => fifo (by rw [outside]; exact Destructor.noConfusion)
  | stopped entered => exact fun _ => fifo (by rw [entered]; exact Destructor.noConfusion)
  | notifiedAll stopped => exact fun _ => fifo (by rw [stopped]; exact Destructor.noConfusion)
  | joined joining _ => exact fun _ => fifo (by rw [joining]; exact Destructor.noConfusion)
  | returned _ _ => exact fun there => absurd rfl there
  | _ => exact fifo

theorem Moves.action_perm {pool : WorkerPool Job} (moves : pool.Moves index source target workers) :
    (source.action.toList ++ workers.filterMap Worker.action).Perm
      (target.action.toList ++ pool.workers.filterMap Worker.action) := by
  obtain ⟨here, rfl⟩ := moves
  exact filterMap_set_perm Worker.action here target

/-- A worker that neither takes nor ends a job. -/
theorem Accounted.moved {pool : WorkerPool Job} (accounted : Accounted pool) (moves : pool.Moves index source target workers)
    (before : source.action = none) (after : target.action = none) :
    (workers.filterMap Worker.action ++ pool.executed).Perm pool.taken := by
  have same := moves.action_perm
  rw [before, after] at same
  exact (same.append_right _).trans accounted

theorem notified_action (worker : Worker Job) : worker.notified.action = worker.action := by
  cases worker <;> rfl

theorem Step.accounted {pool : WorkerPool Job} (step : Step pool action after) (called : Called pool)
    (accounted : Accounted pool) : Accounted after := by
  cases step with
  | notified _ moves => exact accounted.moved moves rfl rfl
  | woken moves => exact accounted.moved moves rfl rfl
  | looped moves => exact accounted.moved moves rfl (by split <;> rfl)
  | left _ moves => exact accounted.moved moves rfl rfl
  | waited _ _ moves => exact accounted.moved moves rfl rfl
  | took _ _ moves =>
    exact (moves.action_perm.append_right _).trans
      ((accounted.cons _).trans (List.perm_append_singleton _ _).symm)
  | @finished _ workers action moves =>
    change (workers.filterMap Worker.action ++ (pool.executed ++ [action])).Perm pool.taken
    have same : (action :: workers.filterMap Worker.action).Perm (pool.workers.filterMap Worker.action) :=
      moves.action_perm
    rw [← List.append_assoc]
    exact (List.perm_append_singleton _ _).trans ((same.append_right pool.executed).trans accounted)
  | notifiedAll _ =>
    have same : (pool.workers.map Worker.notified).filterMap Worker.action = pool.workers.filterMap Worker.action := by
      rw [List.filterMap_map]
      exact congrArg (List.filterMap · _) (funext notified_action)
    change (List.filterMap _ (pool.workers.map Worker.notified) ++ _).Perm _
    rw [same]
    exact accounted
  | returned joining all =>
    have ended := (called _ joining).2
    rw [List.take_of_length_le all] at ended
    have idle : pool.workers.filterMap Worker.action = [] :=
      List.filterMap_eq_nil_iff.mpr fun worker member => by rw [ended worker member]; rfl
    have executed := accounted
    unfold Accounted at executed
    rw [idle] at executed
    exact executed
  | _ => exact accounted

theorem Step.stopping {pool : WorkerPool Job} (step : Step pool action after) (stopping : Stopping pool) : Stopping after := by
  unfold Stopping at *
  cases step with
  | entered outside => simp [stopping, outside]
  | stopped entered => simp
  | notifiedAll stopped => simpa [stopped] using stopping
  | joined joining _ => simpa [joining] using stopping
  | returned joining _ => simpa [joining] using stopping
  | _ => exact stopping

/-- A worker that has just moved is awake, unless it went to sleep. -/
theorem Moves.awake {pool : WorkerPool Job} (moves : pool.Moves index source target workers) (wakes : target.isWaiting = false) :
    ∃ worker ∈ workers, worker.isWaiting = false := by
  obtain ⟨here, rfl⟩ := moves
  exact ⟨target, List.mem_set (List.getElem?_eq_some_iff.mp here).1 target, wakes⟩

theorem Step.attended {pool : WorkerPool Job} (step : Step pool action after) (stopping : Stopping pool)
    (staffed : pool.stop = false → pool.workers ≠ []) (attended : Attended pool) : Attended after := by
  intro running waiting
  cases step with
  | pushed _ job => exact Or.inl (Nat.succ_pos _)
  | notified _ moves => exact Or.inr (moves.awake rfl)
  | notifiedNone _ awake =>
    obtain ⟨worker, member⟩ := List.exists_mem_of_ne_nil _ (staffed running)
    exact Or.inr ⟨worker, member, awake worker member⟩
  | woken moves => exact Or.inr (moves.awake rfl)
  | looped moves => exact Or.inr (moves.awake (by split <;> rfl))
  | left _ moves => exact Or.inr (moves.awake rfl)
  | waited _ idle _ => exact absurd idle waiting
  | took _ _ moves => exact Or.inr (moves.awake rfl)
  | finished moves => exact Or.inr (moves.awake rfl)
  | entered _ => exact attended running waiting
  | stopped _ => cases running
  | notifiedAll stopped =>
    rcases stopping.mp running with outside | entered
    · cases stopped.symm.trans outside
    · cases stopped.symm.trans entered
  | joined _ ended => exact attended running waiting
  | returned _ _ => exact absurd rfl waiting

theorem Called.moved {pool : WorkerPool Job} (called : Called pool) (moves : pool.Moves index source target workers)
    (wakes : target.isWaiting = false) (live : source ≠ .ended) : Called { pool with workers } := by
  obtain ⟨here, rfl⟩ := moves
  obtain ⟨inside, held⟩ := List.getElem?_eq_some_iff.mp here
  intro joined joining
  obtain ⟨awake, ended⟩ := called joined joining
  constructor
  · intro worker member
    rcases List.mem_or_eq_of_mem_set member with before | rfl
    · exact awake worker before
    · exact wakes
  · intro worker member
    dsimp only at member
    -- A worker that has been joined does not move.
    have later : joined ≤ index := by
      by_contra earlier
      have listed : source ∈ pool.workers.take joined := by
        rw [← held]
        exact List.mem_take_iff_getElem.mpr ⟨index, by omega, rfl⟩
      exact live (ended source listed)
    rw [List.take_set_of_le later] at member
    exact ended worker member

theorem notified_awake (worker : Worker Job) : worker.notified.isWaiting = false := by
  cases worker <;> rfl

theorem Step.called {pool : WorkerPool Job} (step : Step pool action after) (stopping : Stopping pool)
    (called : Called pool) : Called after := by
  cases step with
  | notified _ moves => exact called.moved moves rfl nofun
  | woken moves => exact called.moved moves rfl nofun
  | looped moves => exact called.moved moves (by split <;> rfl) nofun
  | left _ moves => exact called.moved moves rfl nofun
  | waited running _ _ =>
    intro index joining
    rcases stopping.mp running with outside | entered
    · cases joining.symm.trans outside
    · cases joining.symm.trans entered
  | took _ _ moves => exact called.moved moves rfl nofun
  | finished moves => exact called.moved moves rfl nofun
  | entered _ => rintro index ⟨⟩
  | stopped _ => rintro index ⟨⟩
  | notifiedAll _ =>
    rintro index ⟨⟩
    refine ⟨fun worker member => ?_, fun worker member => by cases member⟩
    obtain ⟨before, _, rfl⟩ := List.mem_map.mp member
    exact notified_awake before
  | @joined index joining ended =>
    rintro _ ⟨⟩
    obtain ⟨awake, all⟩ := called index joining
    refine ⟨awake, fun worker member => ?_⟩
    dsimp only at member
    rw [List.take_add_one, ended] at member
    rcases List.mem_append.mp member with before | last
    · exact all worker before
    · exact List.mem_singleton.mp last
  | returned _ _ => rintro index ⟨⟩
  | _ => exact called

/-- The pool has its workers until it is gone. -/
def Staffed (n : Nat) (pool : WorkerPool Job) : Prop := pool.destructor ≠ .returned → pool.workers.length = n

theorem Staffed.moved {pool : WorkerPool Job} (staffed : Staffed n pool) (moves : pool.Moves index source target workers) :
    Staffed n { pool with workers } := by
  obtain ⟨_, rfl⟩ := moves
  exact fun there => (List.length_set ..).trans (staffed there)

theorem Step.staffed {pool : WorkerPool Job} (step : Step pool action after) (staffed : Staffed n pool) :
    Staffed n after := by
  cases step with
  | pushed => exact staffed
  | notified _ moves => exact staffed.moved moves
  | notifiedNone => exact staffed
  | woken moves => exact staffed.moved moves
  | looped moves => exact staffed.moved moves
  | left _ moves => exact staffed.moved moves
  | waited _ _ moves => exact staffed.moved moves
  | took _ _ moves => exact staffed.moved moves
  | finished moves => exact staffed.moved moves
  | entered outside => exact fun _ => staffed (by rw [outside]; exact Destructor.noConfusion)
  | stopped entered => exact fun _ => staffed (by rw [entered]; exact Destructor.noConfusion)
  | notifiedAll stopped =>
    exact fun _ => (List.length_map ..).trans (staffed (by rw [stopped]; exact Destructor.noConfusion))
  | joined joining _ => exact fun _ => staffed (by rw [joining]; exact Destructor.noConfusion)
  | returned _ _ => exact fun there => absurd rfl there

/-- The threads of a pool that is gone have been joined and destroyed. -/
def Cleared (pool : WorkerPool Job) : Prop := pool.destructor = .returned → pool.workers = []

theorem Cleared.moved {pool : WorkerPool Job} (cleared : Cleared pool) (moves : pool.Moves index source target workers) :
    Cleared { pool with workers } := by
  intro returned
  have here := moves.1
  rw [cleared returned] at here
  cases here

theorem Step.cleared {pool : WorkerPool Job} (step : Step pool action after) (cleared : Cleared pool) :
    Cleared after := by
  cases step with
  | pushed => exact cleared
  | notified _ moves => exact cleared.moved moves
  | notifiedNone => exact cleared
  | woken moves => exact cleared.moved moves
  | looped moves => exact cleared.moved moves
  | left _ moves => exact cleared.moved moves
  | waited _ _ moves => exact cleared.moved moves
  | took _ _ moves => exact cleared.moved moves
  | finished moves => exact cleared.moved moves
  | entered _ => rintro ⟨⟩
  | stopped _ => rintro ⟨⟩
  | notifiedAll _ => rintro ⟨⟩
  | joined _ _ => rintro ⟨⟩
  | returned _ _ => exact fun _ => rfl

/-! ### Runs -/

/-- What holds of a pool of so many workers in every run. -/
structure Kept (n : Nat) (pool : WorkerPool Job) : Prop where
  fifo : Fifo pool
  accounted : Accounted pool
  stopping : Stopping pool
  called : Called pool
  staffed : Staffed n pool
  cleared : Cleared pool
  attended : 0 < n → Attended pool

theorem kept_new (n : Nat) : Kept n (new n : WorkerPool Job) where
  fifo _ := rfl
  accounted := by
    have idle : (List.replicate n (Worker.looping : Worker Job)).filterMap Worker.action = [] :=
      List.filterMap_eq_nil_iff.mpr fun worker member => by rw [List.eq_of_mem_replicate member]; rfl
    change (List.filterMap _ (List.replicate n _) ++ []).Perm []
    rw [idle]
    rfl
  stopping := by simp [Stopping, new]
  called := by rintro index ⟨⟩
  staffed _ := List.length_replicate
  cleared := by rintro ⟨⟩
  attended _ _ waiting := absurd rfl waiting

theorem Kept.step {pool : WorkerPool Job} (kept : Kept n pool) (step : Step pool action after) : Kept n after where
  fifo := step.fifo kept.fifo
  accounted := step.accounted kept.called kept.accounted
  stopping := step.stopping kept.stopping
  called := step.called kept.stopping kept.called
  staffed := step.staffed kept.staffed
  cleared := step.cleared kept.cleared
  attended positive := step.attended kept.stopping (fun running => by
    have there : pool.destructor ≠ .returned := by
      rcases kept.stopping.mp running with outside | entered
      · rw [outside]
        exact Destructor.noConfusion
      · rw [entered]
        exact Destructor.noConfusion
    have size := kept.staffed there
    exact List.ne_nil_of_length_pos (size ▸ positive)) (kept.attended positive)

theorem kept_run (ran : run step (new n) actions = some pool) : Kept n (pool : WorkerPool Job) :=
  run_keeps (fun _ _ _ _ stepped kept => kept.step (step_steps stepped)) (kept_new n) ran

/-- The jobs given to `addJob`, in the order in which they are pushed. -/
def added (actions : List (Action Job)) : List Job :=
  actions.filterMap fun
    | .push job => some job
    | _ => none

theorem added_none (quiet : ∀ job : Job, .push job ∉ actions) : added actions = [] := by
  refine List.filterMap_eq_nil_iff.mpr fun action member => ?_
  cases action with
  | push job => exact absurd member (quiet job)
  | _ => rfl

theorem Step.pushed_grows {pool : WorkerPool Job} (step : Step pool action after) :
    after.pushed = pool.pushed ++ added [action] := by
  cases step with
  | pushed _ job => rfl
  | _ => exact (List.append_nil _).symm

/-- What a pool has recorded as pushed is what it was given. -/
theorem pushed_run {pool : WorkerPool Job} (ran : run step pool actions = some after) :
    after.pushed = pool.pushed ++ added actions := by
  induction actions generalizing pool with
  | nil =>
    cases ran
    exact (List.append_nil _).symm
  | cons action actions ih =>
    obtain ⟨middle, stepped, rest⟩ := run_cons.mp ran
    rw [ih rest, (step_steps stepped).pushed_grows, List.append_assoc, added, added, ← List.filterMap_append]
    rfl

/-- The destructor has been through `_cv.notify_all`. -/
def CalledAll (pool : WorkerPool Job) : Prop :=
  (∃ index, pool.destructor = .joining index) ∨ pool.destructor = .returned

/-- No job is lost or taken twice and the workers take them in order; before the
stop no job waits for workers that all sleep with nobody left to wake one; and
after the call to all of them none sleeps. -/
theorem no_lost_wakeup (positive : 1 ≤ n) (ran : run step (new n : WorkerPool Job) actions = some pool) :
    (pool.stop = false → pool.taken ++ pool.jobs = added actions) ∧
      (pool.workers.filterMap Worker.action ++ pool.executed).Perm pool.taken ∧
      ¬ (pool.stop = false ∧ pool.jobs ≠ [] ∧ (∀ worker ∈ pool.workers, worker = .waiting) ∧ pool.notifying = 0) ∧
      ¬ (pool.stop = true ∧ CalledAll pool ∧ ∃ worker ∈ pool.workers, worker = .waiting) := by
  have kept := kept_run ran
  refine ⟨?_, kept.accounted, ?_, ?_⟩
  · intro running
    refine (kept.fifo ?_).trans (pushed_run ran)
    rcases kept.stopping.mp running with outside | entered
    · rw [outside]
      exact nofun
    · rw [entered]
      exact nofun
  · rintro ⟨running, waiting, asleep, nobody⟩
    rcases kept.attended positive running waiting with owed | ⟨worker, member, awake⟩
    · exact Nat.ne_of_gt owed nobody
    · rw [asleep worker member] at awake
      cases awake
  · rintro ⟨_, ⟨index, joining⟩ | returned, worker, member, rfl⟩
    · cases (kept.called index joining).1 _ member
    · rw [kept.cleared returned] at member
      cases member

/-- A worker takes the first of two jobs, and the other goes to sleep before the
second is pushed. -/
theorem no_lost_wakeup_pushed : ∃ pool : WorkerPool Nat,
    run step (new 2) [.push 1, .loop 0, .loop 0, .loop 1, .loop 1, .push 2] = some pool ∧
      pool.taken ++ pool.jobs = [1, 2] ∧
      ¬ (pool.stop = false ∧ pool.jobs ≠ [] ∧ (∀ worker ∈ pool.workers, worker = .waiting) ∧ pool.notifying = 0) := by
  have ran : run step (new 2 : WorkerPool Nat) [.push 1, .loop 0, .loop 0, .loop 1, .loop 1, .push 2] =
      some ⟨[.running 1, .waiting], [2], false, .outside, 2, [1, 2], [1], []⟩ := rfl
  obtain ⟨order, _, awake, _⟩ := no_lost_wakeup (by decide) ran
  exact ⟨_, ran, order rfl, awake⟩

/-- A pool of so many workers was given these jobs and destroyed. All calls of
`addJob` had returned when the destructor was entered; it was about to set the
flag in the first of the two states, and had returned in the second. -/
def Destroyed (n : Nat) (jobs : List Job) (stopping gone : WorkerPool Job) : Prop :=
  ∃ (first waits rest : List (Action Job)) (before : WorkerPool Job), added first = jobs ∧
    run step (new n) first = some before ∧ before.destructor = .outside ∧ before.notifying = 0 ∧
    run step before (.destroy :: waits) = some stopping ∧ stopping.destructor = .entered ∧
    run step stopping (.destroy :: rest) = some gone ∧ gone.destructor = .returned ∧
    ∀ job, .push job ∉ waits ++ rest

/-- Once the flag is set, nothing is taken. -/
theorem Step.taken_same {pool : WorkerPool Job} (step : Step pool action after) (stop : pool.stop = true) :
    after.stop = true ∧ after.taken = pool.taken := by
  cases step with
  | took running _ _ => cases stop.symm.trans running
  | stopped _ => exact ⟨rfl, rfl⟩
  | _ => exact ⟨stop, rfl⟩

/-- The destructor completes the work exactly when the queue is empty as it sets
the flag. -/
theorem completes_iff {jobs : List Job} {stopping gone : WorkerPool Job} (destroyed : Destroyed n jobs stopping gone) :
    gone.executed.Perm jobs ↔ stopping.jobs = [] := by
  obtain ⟨first, waits, rest, before, given, used, _, _, entered, phase, ended, returned, quiet⟩ := destroyed
  have toStop := run_append.mpr ⟨before, used, entered⟩
  have atStop := kept_run toStop
  have atEnd := kept_run (run_append.mpr ⟨before, used, run_append.mpr ⟨stopping, entered, ended⟩⟩)
  -- all of them were pushed before the destructor was entered
  have pushed : stopping.pushed = jobs := by
    have nothing : added (.destroy :: waits) = [] := added_none fun job member => by
      rcases List.mem_cons.mp member with same | late
      · cases same
      · exact quiet job (List.mem_append_left _ late)
    rw [pushed_run toStop, added, List.filterMap_append]
    exact (congrArg (added first ++ ·) nothing).trans ((List.append_nil _).trans given)
  obtain ⟨stopped, sets, ended⟩ := run_cons.mp ended
  have start : stopped.stop = true ∧ stopped.taken = stopping.taken := by
    change destroy stopping = some stopped at sets
    unfold destroy at sets
    rw [phase] at sets
    cases sets
    exact ⟨rfl, rfl⟩
  have kept : gone.stop = true ∧ gone.taken = stopping.taken := by
    refine @run_keeps _ _ _ _ _ step (fun pool => pool.stop = true ∧ pool.taken = stopping.taken)
      (fun earlier action later _ stepped ⟨stop, taken⟩ => ?_) start ended
    obtain ⟨still, same⟩ := (step_steps stepped).taken_same stop
    exact ⟨still, same.trans taken⟩
  have executed := atEnd.accounted
  unfold Accounted at executed
  rw [atEnd.cleared returned, kept.2] at executed
  have fifo := atStop.fifo (by rw [phase]; exact nofun)
  rw [← pushed, ← fifo]
  constructor
  · intro complete
    have length := (executed.symm.trans complete).length_eq
    rw [List.length_append, Nat.left_eq_add] at length
    exact List.length_eq_zero_iff.mp length
  · intro empty
    rw [empty, List.append_nil]
    exact executed

/-- The worker takes the job before the destructor is entered. -/
theorem completes_taken :
    ∃ stopping gone : WorkerPool Unit, Destroyed 1 [()] stopping gone ∧ stopping.jobs = [] ∧
      gone.executed.Perm [()] := by
  have destroyed : Destroyed 1 [()] ⟨[.running ()], [], false, .entered, 0, [()], [()], []⟩
      (⟨[], [], true, .returned, 0, [()], [()], [()]⟩ : WorkerPool Unit) :=
    ⟨[.push (), .notify none, .loop 0, .loop 0], [], [.destroy, .loop 0, .loop 0, .destroy, .destroy], _,
      rfl, rfl, rfl, rfl, rfl, rfl, rfl, rfl, fun job listed => by simp at listed⟩
  exact ⟨_, _, destroyed, rfl, (completes_iff destroyed).mpr rfl⟩

/-- The worker sees the flag before it sees the job. -/
theorem job_dropped :
    ¬ ∀ (n : Nat) (jobs : List Unit) (stopping gone : WorkerPool Unit), 1 ≤ n → Destroyed n jobs stopping gone →
      gone.executed.Perm jobs := by
  intro holds
  have destroyed : Destroyed 1 [()] ⟨[.looping], [()], false, .entered, 0, [()], [], []⟩
      (⟨[], [], true, .returned, 0, [()], [], []⟩ : WorkerPool Unit) :=
    ⟨[.push (), .notify none], [], [.destroy, .loop 0, .destroy, .destroy], _,
      rfl, rfl, rfl, rfl, rfl, rfl, rfl, rfl, fun job listed => by simp at listed⟩
  exact absurd (holds 1 _ _ _ (Nat.le_refl 1) destroyed).length_eq (by decide)

end Libftpp.WorkerPool
