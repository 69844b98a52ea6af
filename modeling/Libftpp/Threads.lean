import Mathlib.Data.List.Basic

/-! Threads that share a state. What they do together is one sequence of steps,
each an atomic action of one thread; the order of the steps is arbitrary. A step
that cannot be taken in a state has no successor there. -/
namespace Libftpp.Threads

/-! ### Runs -/

section runs
variable {σ Label : Type}

/-- The state after these steps, if each could be taken. -/
def run (step : σ → Label → Option σ) (start : σ) (labels : List Label) : Option σ :=
  labels.foldlM step start

theorem run_nil {step : σ → Label → Option σ} {start final : σ} : run step start [] = some final ↔ start = final :=
  ⟨fun same => Option.some.inj same, fun same => congrArg some same⟩

theorem run_cons {step : σ → Label → Option σ} {start final : σ} :
    run step start (label :: labels) = some final ↔
      ∃ middle, step start label = some middle ∧ run step middle labels = some final := by
  unfold run
  rw [List.foldlM_cons]
  exact Option.bind_eq_some_iff

theorem run_append {step : σ → Label → Option σ} {start final : σ} :
    run step start (first ++ rest) = some final ↔
      ∃ middle, run step start first = some middle ∧ run step middle rest = some final := by
  unfold run
  rw [List.foldlM_append]
  exact Option.bind_eq_some_iff

/-- What every one of the steps keeps, the run keeps. -/
theorem run_keeps {step : σ → Label → Option σ} {invariant : σ → Prop}
    (keeps : ∀ before label after, label ∈ labels → step before label = some after → invariant before → invariant after)
    (holds : invariant start) (ran : run step start labels = some final) : invariant final := by
  induction labels generalizing start with
  | nil =>
    cases run_nil.mp ran
    exact holds
  | cons label labels ih =>
    obtain ⟨middle, first, rest⟩ := run_cons.mp ran
    exact ih (fun before other after member => keeps before other after (List.mem_cons_of_mem _ member))
      (keeps start label middle (List.mem_cons_self ..) first holds) rest

/-- What gets smaller with every step bounds the run. -/
theorem run_bounded {step : σ → Label → Option σ} {invariant : σ → Prop} {size : σ → Nat}
    (keeps : ∀ before label after, step before label = some after → invariant before →
      invariant after ∧ size after < size before)
    (holds : invariant start) (ran : run step start labels = some final) : labels.length ≤ size start := by
  induction labels generalizing start with
  | nil => exact Nat.zero_le _
  | cons label labels ih =>
    obtain ⟨middle, first, rest⟩ := run_cons.mp ran
    obtain ⟨kept, smaller⟩ := keeps start label middle first holds
    exact Nat.succ_le_of_lt (Nat.lt_of_le_of_lt (ih kept rest) smaller)

end runs

/-! ### Interleavings -/

section interleavings
variable {Thread Op : Type} [DecidableEq Thread]

/-- What this thread does in a schedule, in its order. -/
def part (thread : Thread) (schedule : List (Thread × Op)) : List Op :=
  (schedule.filter fun turn => turn.1 = thread).map Prod.snd

/-- The schedule interleaves these programs, as far as it goes. -/
def Interleaves (programs : Thread → List Op) (schedule : List (Thread × Op)) : Prop :=
  ∀ thread, part thread schedule <+: programs thread

@[simp] theorem part_nil (thread : Thread) : part thread ([] : List (Thread × Op)) = [] := rfl

theorem part_append (thread : Thread) (first rest : List (Thread × Op)) :
    part thread (first ++ rest) = part thread first ++ part thread rest := by
  rw [part, List.filter_append, List.map_append]
  rfl

theorem part_cons_own (thread : Thread) (op : Op) (schedule : List (Thread × Op)) :
    part thread ((thread, op) :: schedule) = op :: part thread schedule := by
  rw [part, List.filter_cons_of_pos (by simp)]
  rfl

theorem part_cons_other {thread other : Thread} (apart : other ≠ thread) (op : Op) (schedule : List (Thread × Op)) :
    part thread ((other, op) :: schedule) = part thread schedule := by
  rw [part, List.filter_cons_of_neg (by simpa using apart)]
  rfl

theorem mem_part {turn : Thread × Op} {schedule : List (Thread × Op)} (member : turn ∈ schedule) :
    turn.2 ∈ part turn.1 schedule :=
  List.mem_map_of_mem (List.mem_filter.mpr ⟨member, by simp⟩)

/-- Where only one thread has turns, the schedule is its part. -/
theorem part_alone {thread : Thread} {schedule : List (Thread × Op)} (alone : ∀ turn ∈ schedule, turn.1 = thread) :
    part thread schedule = schedule.map Prod.snd := by
  rw [part, List.filter_eq_self.mpr fun turn member => by simpa using alone turn member]

/-- One thread on its own. -/
def turns (thread : Thread) (ops : List Op) : List (Thread × Op) := ops.map fun op => (thread, op)

theorem part_turns_own (thread : Thread) (ops : List Op) : part thread (turns thread ops) = ops := by
  induction ops with
  | nil => rfl
  | cons op ops ih => exact (part_cons_own thread op (turns thread ops)).trans (congrArg (op :: ·) ih)

theorem part_turns_other {thread other : Thread} (apart : other ≠ thread) (ops : List Op) :
    part thread (turns other ops) = [] := by
  induction ops with
  | nil => rfl
  | cons op ops ih => exact (part_cons_other apart op (turns other ops)).trans ih

/-- Of two threads one after the other, the first. -/
theorem part_first {first second : Thread} (apart : first ≠ second) (ops others : List Op) :
    part first (turns first ops ++ turns second others) = ops := by
  rw [part_append, part_turns_own, part_turns_other apart.symm, List.append_nil]

/-- And the second. -/
theorem part_second {first second : Thread} (apart : first ≠ second) (ops others : List Op) :
    part second (turns first ops ++ turns second others) = others := by
  rw [part_append, part_turns_own, part_turns_other apart, List.nil_append]

theorem Interleaves.before {programs : Thread → List Op} (interleaves : Interleaves programs (first ++ rest)) :
    Interleaves programs first := by
  intro thread
  have whole := interleaves thread
  rw [part_append] at whole
  exact (List.prefix_append _ _).trans whole

theorem Interleaves.last {programs : Thread → List Op} (interleaves : Interleaves programs (earlier ++ [(thread, op)])) :
    part thread earlier ++ [op] <+: programs thread := by
  have whole := interleaves thread
  rwa [part_append, part_cons_own, part_nil] at whole

end interleavings

/-! ### What the threads hold -/

section parts
variable {α β : Type}

theorem filterMap_around {threads : List α} {old : α} (holds : α → Option β) (here : threads[index]? = some old)
    (new : α) :
    (threads.set index new).filterMap holds =
      (threads.take index).filterMap holds ++ ((holds new).toList ++ (threads.drop (index + 1)).filterMap holds) := by
  obtain ⟨inside, _⟩ := List.getElem?_eq_some_iff.mp here
  rw [List.set_eq_take_append_cons_drop, if_pos inside, List.filterMap_append]
  congr 1
  cases held : holds new with
  | none => rw [List.filterMap_cons_none held, Option.toList_none, List.nil_append]
  | some value => rw [List.filterMap_cons_some held, Option.toList_some, List.singleton_append]

/-- One thread going on changes what all of them hold together by what it holds. -/
theorem filterMap_set_perm {threads : List α} {old : α} (holds : α → Option β) (here : threads[index]? = some old)
    (new : α) :
    ((holds old).toList ++ (threads.set index new).filterMap holds).Perm
      ((holds new).toList ++ threads.filterMap holds) := by
  obtain ⟨inside, rfl⟩ := List.getElem?_eq_some_iff.mp here
  have unchanged := filterMap_around holds here threads[index]
  rw [List.set_getElem_self] at unchanged
  rw [filterMap_around holds here new, unchanged]
  have first := List.perm_append_comm_assoc (holds threads[index]).toList ((threads.take index).filterMap holds)
    ((holds new).toList ++ (threads.drop (index + 1)).filterMap holds)
  have inner := List.perm_append_comm_assoc (holds threads[index]).toList (holds new).toList
    ((threads.drop (index + 1)).filterMap holds)
  exact (first.trans (inner.append_left _)).trans (List.perm_append_comm_assoc ..)

end parts

end Libftpp.Threads
