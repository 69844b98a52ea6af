import Mathlib.Algebra.BigOperators.Group.Finset.Basic
import Mathlib.Data.Prod.Lex
import Mathlib.Logic.Relation
import Mathlib.Order.WellFounded
import Libftpp.Threads

/-! Calls that threads make under one lock. A call first does what concerns its
thread alone; then, if it has to, it takes the lock, changes what is shared step
by step, and gives the lock back. However the steps of the threads are mixed,
every call does what it would do at once, at the moment at which it takes the
lock; as long as calls are left some thread can go on, and in the end all are
made. -/
namespace Libftpp.CriticalSections
open Threads

variable {Thread Op σ ρ : Type}

/-- How calls are made: what is done before the lock, whether the lock is needed
after that, and what is done under it, in steps of the shared state and of what
belongs to the thread. -/
structure Calls (Thread Op σ ρ : Type) where
  prepare : Op → List (ρ → ρ)
  locks : Op → ρ → Bool
  critical : Thread → Op → ρ → List (σ × ρ → σ × ρ)

/-- Where a thread is, with the steps it has left there. -/
inductive Place (Op σ ρ : Type) where
  | idle
  | preparing (op : Op) (left : List (ρ → ρ))
  | inside (left : List (σ × ρ → σ × ρ))

/-- What is shared, what belongs to each thread, where it is, the calls it has
still to make, and who holds the lock. -/
structure State (Thread Op σ ρ : Type) where
  shared : σ
  own : Thread → ρ
  place : Thread → Place Op σ ρ
  todo : Thread → List Op
  holder : Option Thread

/-- What calls made at once work on. -/
structure Store (Thread σ ρ : Type) where
  shared : σ
  own : Thread → ρ

/-- The steps one after the other. -/
def follow {α : Type} (steps : List (α → α)) (start : α) : α := steps.foldl (fun state step => step state) start

@[simp] theorem follow_nil {α : Type} (start : α) : follow [] start = start := rfl

@[simp] theorem follow_cons {α : Type} (step : α → α) (steps : List (α → α)) (start : α) :
    follow (step :: steps) start = follow steps (step start) := rfl

theorem follow_append {α : Type} (steps more : List (α → α)) (start : α) :
    follow (steps ++ more) start = follow more (follow steps start) := List.foldl_append ..

/-- The calls a thread has begun and has not taken the lock for. -/
def Place.begun : Place Op σ ρ → List Op
  | .preparing op _ => [op]
  | _ => []

namespace State

/-- Nobody has begun anything. -/
def start (store : Store Thread σ ρ) (programs : Thread → List Op) : State Thread Op σ ρ :=
  ⟨store.shared, store.own, fun _ => .idle, programs, none⟩

/-- All calls have been made. -/
def Done (state : State Thread Op σ ρ) : Prop := ∀ thread, state.place thread = .idle ∧ state.todo thread = []

end State

section Steps
variable [DecidableEq Thread] (calls : Calls Thread Op σ ρ)

/-- One step of one thread. -/
inductive Step : State Thread Op σ ρ → State Thread Op σ ρ → Prop where
  | call {state : State Thread Op σ ρ} {thread : Thread} {op : Op} {later : List Op}
      (here : state.place thread = .idle) (next : state.todo thread = op :: later) :
      Step state
        { state with
          place := Function.update state.place thread (.preparing op (calls.prepare op))
          todo := Function.update state.todo thread later }
  | prepare {state : State Thread Op σ ρ} {thread : Thread} {op : Op} {change : ρ → ρ} {left : List (ρ → ρ)}
      (here : state.place thread = .preparing op (change :: left)) :
      Step state
        { state with
          own := Function.update state.own thread (change (state.own thread))
          place := Function.update state.place thread (.preparing op left) }
  | skip {state : State Thread Op σ ρ} {thread : Thread} {op : Op} (here : state.place thread = .preparing op [])
      (unneeded : calls.locks op (state.own thread) = false) :
      Step state { state with place := Function.update state.place thread .idle }
  | lock {state : State Thread Op σ ρ} {thread : Thread} {op : Op} (here : state.place thread = .preparing op [])
      (needed : calls.locks op (state.own thread) = true) (free : state.holder = none) :
      Step state
        { state with
          place := Function.update state.place thread (.inside (calls.critical thread op (state.own thread)))
          holder := some thread }
  | change {state : State Thread Op σ ρ} {thread : Thread} {change : σ × ρ → σ × ρ} {left : List (σ × ρ → σ × ρ)}
      (here : state.place thread = .inside (change :: left)) :
      Step state
        { state with
          shared := (change (state.shared, state.own thread)).1
          own := Function.update state.own thread (change (state.shared, state.own thread)).2
          place := Function.update state.place thread (.inside left) }
  | unlock {state : State Thread Op σ ρ} {thread : Thread} (here : state.place thread = .inside []) :
      Step state { state with place := Function.update state.place thread .idle, holder := none }

/-- The whole call at once. -/
def Calls.atomically (store : Store Thread σ ρ) (turn : Thread × Op) : Store Thread σ ρ :=
  let prepared := follow (calls.prepare turn.2) (store.own turn.1)
  if calls.locks turn.2 prepared then
    let ended := follow (calls.critical turn.1 turn.2 prepared) (store.shared, prepared)
    ⟨ended.1, Function.update store.own turn.1 ended.2⟩
  else ⟨store.shared, Function.update store.own turn.1 prepared⟩

/-- Whole calls in the order of a schedule. -/
def Calls.play (store : Store Thread σ ρ) (schedule : List (Thread × Op)) : Store Thread σ ρ :=
  schedule.foldl calls.atomically store

variable {calls}

theorem play_snoc (store : Store Thread σ ρ) (schedule : List (Thread × Op)) (turn : Thread × Op) :
    calls.play store (schedule ++ [turn]) = calls.atomically (calls.play store schedule) turn := by
  rw [Calls.play, List.foldl_append]
  rfl

theorem atomically_own_other {store : Store Thread σ ρ} {thread other : Thread} (apart : other ≠ thread) (op : Op) :
    (calls.atomically store (thread, op)).own other = store.own other := by
  unfold Calls.atomically
  dsimp only
  split <;> exact Function.update_of_ne apart ..

theorem atomically_locked {store : Store Thread σ ρ} {thread : Thread} {op : Op}
    (needed : calls.locks op (follow (calls.prepare op) (store.own thread)) = true) :
    ((calls.atomically store (thread, op)).shared, (calls.atomically store (thread, op)).own thread) =
      follow (calls.critical thread op (follow (calls.prepare op) (store.own thread)))
        (store.shared, follow (calls.prepare op) (store.own thread)) := by
  unfold Calls.atomically
  dsimp only
  rw [if_pos needed]
  dsimp only
  rw [Function.update_self]

theorem atomically_unlocked {store : Store Thread σ ρ} {thread : Thread} {op : Op}
    (unneeded : calls.locks op (follow (calls.prepare op) (store.own thread)) = false) :
    (calls.atomically store (thread, op)).shared = store.shared ∧
      (calls.atomically store (thread, op)).own thread = follow (calls.prepare op) (store.own thread) := by
  unfold Calls.atomically
  dsimp only
  rw [if_neg (by rw [unneeded]; decide)]
  exact ⟨rfl, Function.update_self ..⟩

/-- The thread is on its way to what whole calls have made of the store: a call
that has the lock counts as made, one that has not does not. -/
def Agrees (calls : Calls Thread Op σ ρ) (state : State Thread Op σ ρ) (store : Store Thread σ ρ) (thread : Thread) :
    Prop :=
  match state.place thread with
  | .idle => state.own thread = store.own thread
  | .preparing op left => follow left (state.own thread) = follow (calls.prepare op) (store.own thread)
  | .inside left => follow left (state.shared, state.own thread) = (store.shared, store.own thread)

/-- The threads have come as far as these whole calls. -/
structure Follows (calls : Calls Thread Op σ ρ) (store : Store Thread σ ρ) (programs : Thread → List Op)
    (schedule : List (Thread × Op)) (state : State Thread Op σ ρ) : Prop where
  divided : ∀ thread, part thread schedule ++ ((state.place thread).begun ++ state.todo thread) = programs thread
  agrees : ∀ thread, Agrees calls state (calls.play store schedule) thread
  exclusive : ∀ thread, (∃ left, state.place thread = .inside left) ↔ state.holder = some thread
  free : state.holder = none → state.shared = (calls.play store schedule).shared

theorem follows_start (store : Store Thread σ ρ) (programs : Thread → List Op) :
    Follows calls store programs [] (.start store programs) where
  divided _ := rfl
  agrees _ := rfl
  exclusive thread := by
    constructor
    · rintro ⟨_, never⟩
      cases never
    · intro never
      cases never
  free _ := rfl

omit [DecidableEq Thread] in
/-- What a step of one thread leaves of the others. -/
theorem Agrees.kept {state next : State Thread Op σ ρ} {other : Thread} (agrees : Agrees calls state store other)
    (place : next.place other = state.place other) (own : next.own other = state.own other)
    (same : later.own other = store.own other)
    (outside : (∃ left, state.place other = .inside left) → next.shared = state.shared ∧ later.shared = store.shared) :
    Agrees calls next later other := by
  unfold Agrees at agrees ⊢
  rw [place]
  cases here : state.place other with
  | idle =>
    rw [here] at agrees
    exact own.trans (agrees.trans same.symm)
  | preparing op left =>
    rw [here] at agrees
    simp only at agrees ⊢
    rw [own, same]
    exact agrees
  | inside left =>
    rw [here] at agrees
    simp only at agrees ⊢
    obtain ⟨shared, result⟩ := outside ⟨left, here⟩
    rw [own, same, shared, result]
    exact agrees

section Step
variable {store : Store Thread σ ρ} {programs : Thread → List Op} {schedule : List (Thread × Op)}
  {state : State Thread Op σ ρ} {thread : Thread}

/-- Only the holder of the lock is inside. -/
theorem Follows.alone (follows : Follows calls store programs schedule state)
    (here : state.place thread = .inside left) {other : Thread} (apart : other ≠ thread) :
    ¬ ∃ left, state.place other = .inside left := by
  intro inside
  have mine := (follows.exclusive thread).mp ⟨left, here⟩
  have theirs := (follows.exclusive other).mp inside
  rw [mine, Option.some.injEq] at theirs
  exact apart theirs.symm

theorem Follows.outside (follows : Follows calls store programs schedule state) (free : state.holder = none)
    (other : Thread) : ¬ ∃ left, state.place other = .inside left := by
  intro inside
  have theirs := (follows.exclusive other).mp inside
  rw [free] at theirs
  cases theirs

/-- What a step of one thread leaves as it is for the others: where they are, what
belongs to them, the calls they have made and have to make, and the lock if they
have it, with what is shared for as long as they have it. -/
structure Beside (calls : Calls Thread Op σ ρ) (store : Store Thread σ ρ) (thread : Thread)
    (schedule later : List (Thread × Op)) (state next : State Thread Op σ ρ) : Prop where
  place : ∀ other ≠ thread, next.place other = state.place other
  own : ∀ other ≠ thread, next.own other = state.own other
  todo : ∀ other ≠ thread, next.todo other = state.todo other
  made : ∀ other ≠ thread, part other later = part other schedule
  result : ∀ other ≠ thread, (calls.play store later).own other = (calls.play store schedule).own other
  holder : ∀ other ≠ thread, next.holder = some other ↔ state.holder = some other
  shared : ∀ other ≠ thread, (∃ left, state.place other = .inside left) →
    next.shared = state.shared ∧ (calls.play store later).shared = (calls.play store schedule).shared

/-- Only the thread that takes the step has to be looked at. -/
theorem Follows.beside (thread : Thread) (follows : Follows calls store programs schedule state)
    (beside : Beside calls store thread schedule later state next)
    (divided : part thread later ++ ((next.place thread).begun ++ next.todo thread) = programs thread)
    (agrees : Agrees calls next (calls.play store later) thread)
    (exclusive : (∃ left, next.place thread = .inside left) ↔ next.holder = some thread)
    (free : next.holder = none → next.shared = (calls.play store later).shared) :
    Follows calls store programs later next := by
  constructor
  · intro other
    by_cases same : other = thread
    · exact same ▸ divided
    · rw [beside.made other same, beside.place other same, beside.todo other same]
      exact follows.divided other
  · intro other
    by_cases same : other = thread
    · exact same ▸ agrees
    · exact (follows.agrees other).kept (beside.place other same) (beside.own other same) (beside.result other same)
        (beside.shared other same)
  · intro other
    by_cases same : other = thread
    · exact same ▸ exclusive
    · rw [beside.place other same, beside.holder other same]
      exact follows.exclusive other
  · exact free

theorem Follows.call (follows : Follows calls store programs schedule state) (here : state.place thread = .idle)
    (next : state.todo thread = op :: later) :
    Follows calls store programs schedule
      { state with
        place := Function.update state.place thread (.preparing op (calls.prepare op))
        todo := Function.update state.todo thread later } := by
  have whole := follows.divided thread
  have mine := follows.agrees thread
  have outside := (follows.exclusive thread).not
  unfold Agrees at mine
  rw [here] at whole mine outside
  apply follows.beside thread
  · exact
      { place := fun _ apart => Function.update_of_ne apart ..
        own := fun _ _ => rfl
        todo := fun _ apart => Function.update_of_ne apart ..
        made := fun _ _ => rfl
        result := fun _ _ => rfl
        holder := fun _ _ => Iff.rfl
        shared := fun _ _ _ => ⟨rfl, rfl⟩ }
  · rw [next] at whole
    simpa [Place.begun] using whole
  · simp only [Agrees, Function.update_self]
    rw [mine]
  · simpa using outside
  · exact follows.free

theorem Follows.prepare (follows : Follows calls store programs schedule state)
    (here : state.place thread = .preparing op (change :: left)) :
    Follows calls store programs schedule
      { state with
        own := Function.update state.own thread (change (state.own thread))
        place := Function.update state.place thread (.preparing op left) } := by
  have whole := follows.divided thread
  have mine := follows.agrees thread
  have outside := (follows.exclusive thread).not
  unfold Agrees at mine
  rw [here] at whole mine outside
  apply follows.beside thread
  · exact
      { place := fun _ apart => Function.update_of_ne apart ..
        own := fun _ apart => Function.update_of_ne apart ..
        todo := fun _ _ => rfl
        made := fun _ _ => rfl
        result := fun _ _ => rfl
        holder := fun _ _ => Iff.rfl
        shared := fun _ _ _ => ⟨rfl, rfl⟩ }
  · simpa [Place.begun] using whole
  · simpa [Agrees] using mine
  · simpa using outside
  · exact follows.free

/-- One more call of a thread is none of another. -/
theorem part_snoc_other {other : Thread} (apart : other ≠ thread) (schedule : List (Thread × Op)) (op : Op) :
    part other (schedule ++ [(thread, op)]) = part other schedule := by
  rw [part_append, part_cons_other (Ne.symm apart), part_nil, List.append_nil]

/-- A call that needs no lock is made where its preparation ends. -/
theorem Follows.skip (follows : Follows calls store programs schedule state)
    (here : state.place thread = .preparing op []) (unneeded : calls.locks op (state.own thread) = false) :
    Follows calls store programs (schedule ++ [(thread, op)])
      { state with place := Function.update state.place thread .idle } := by
  have whole := follows.divided thread
  have mine := follows.agrees thread
  have outside := (follows.exclusive thread).not
  unfold Agrees at mine
  simp only [here, follow_nil] at whole mine outside
  obtain ⟨shared, own⟩ := atomically_unlocked (mine ▸ unneeded)
  apply follows.beside thread
  · exact
      { place := fun _ apart => Function.update_of_ne apart ..
        own := fun _ _ => rfl
        todo := fun _ _ => rfl
        made := fun _ apart => part_snoc_other apart schedule op
        result := fun _ apart => by rw [play_snoc, atomically_own_other apart]
        holder := fun _ _ => Iff.rfl
        shared := fun _ _ _ => ⟨rfl, by rw [play_snoc, shared]⟩ }
  · rw [part_append, part_cons_own]
    simpa [Place.begun] using whole
  · simp only [Agrees, Function.update_self]
    rw [play_snoc, own]
    exact mine
  · simpa using outside
  · rw [play_snoc, shared]
    exact follows.free

/-- Any other call is made where it takes the lock. -/
theorem Follows.lock (follows : Follows calls store programs schedule state)
    (here : state.place thread = .preparing op []) (needed : calls.locks op (state.own thread) = true)
    (free : state.holder = none) :
    Follows calls store programs (schedule ++ [(thread, op)])
      { state with
        place := Function.update state.place thread (.inside (calls.critical thread op (state.own thread)))
        holder := some thread } := by
  have whole := follows.divided thread
  have mine := follows.agrees thread
  unfold Agrees at mine
  simp only [here, follow_nil] at whole mine
  have locked := atomically_locked (mine ▸ needed)
  rw [← mine, ← follows.free free] at locked
  apply follows.beside thread
  · exact
      { place := fun _ apart => Function.update_of_ne apart ..
        own := fun _ _ => rfl
        todo := fun _ _ => rfl
        made := fun _ apart => part_snoc_other apart schedule op
        result := fun _ apart => by rw [play_snoc, atomically_own_other apart]
        holder := fun _ apart => by simp [free, Ne.symm apart]
        shared := fun other _ inside => absurd inside (follows.outside free other) }
  · rw [part_append, part_cons_own]
    simpa [Place.begun] using whole
  · simp only [Agrees, Function.update_self]
    rw [play_snoc]
    exact locked.symm
  · simp
  · exact nofun

/-- Nobody else sees what the holder of the lock has changed so far. -/
theorem Follows.change (follows : Follows calls store programs schedule state)
    (here : state.place thread = .inside (move :: left)) :
    Follows calls store programs schedule
      { state with
        shared := (move (state.shared, state.own thread)).1
        own := Function.update state.own thread (move (state.shared, state.own thread)).2
        place := Function.update state.place thread (.inside left) } := by
  have whole := follows.divided thread
  have mine := follows.agrees thread
  have inside := follows.exclusive thread
  unfold Agrees at mine
  rw [here] at whole mine inside
  apply follows.beside thread
  · exact
      { place := fun _ apart => Function.update_of_ne apart ..
        own := fun _ apart => Function.update_of_ne apart ..
        todo := fun _ _ => rfl
        made := fun _ _ => rfl
        result := fun _ _ => rfl
        holder := fun _ _ => Iff.rfl
        shared := fun _ apart inside => absurd inside (follows.alone here apart) }
  · simpa [Place.begun] using whole
  · simpa [Agrees] using mine
  · simpa using inside
  · exact fun free => absurd ⟨_, here⟩ (follows.outside free thread)

/-- When the lock is given back, the whole call has been made. -/
theorem Follows.unlock (follows : Follows calls store programs schedule state)
    (here : state.place thread = .inside []) :
    Follows calls store programs schedule
      { state with place := Function.update state.place thread .idle, holder := none } := by
  have whole := follows.divided thread
  have mine := follows.agrees thread
  have held := (follows.exclusive thread).mp ⟨[], here⟩
  unfold Agrees at mine
  simp only [here, follow_nil, Prod.mk.injEq] at whole mine
  apply follows.beside thread
  · exact
      { place := fun _ apart => Function.update_of_ne apart ..
        own := fun _ _ => rfl
        todo := fun _ _ => rfl
        made := fun _ _ => rfl
        result := fun _ _ => rfl
        holder := fun _ apart => by simp [held, Ne.symm apart]
        shared := fun _ _ _ => ⟨rfl, rfl⟩ }
  · simpa [Place.begun] using whole
  · simpa [Agrees] using mine.2
  · simp
  · exact fun _ => mine.1

/-- One step makes at most one more call. -/
theorem Follows.step (follows : Follows calls store programs schedule state) (step : Step calls state next) :
    ∃ made, Follows calls store programs (schedule ++ made) next := by
  have same := List.append_nil schedule
  cases step with
  | call here next => exact ⟨[], same.symm ▸ follows.call here next⟩
  | prepare here => exact ⟨[], same.symm ▸ follows.prepare here⟩
  | skip here unneeded => exact ⟨[_], follows.skip here unneeded⟩
  | lock here needed free => exact ⟨[_], follows.lock here needed free⟩
  | change here => exact ⟨[], same.symm ▸ follows.change here⟩
  | unlock here => exact ⟨[], same.symm ▸ follows.unlock here⟩

/-- Wherever the threads have come, it is as far as some whole calls lead. -/
theorem follows_of_run (run : Relation.ReflTransGen (Step calls) (.start store programs) state) :
    ∃ schedule, Follows calls store programs schedule state := by
  induction run with
  | refl => exact ⟨[], follows_start store programs⟩
  | tail _ step ih =>
    obtain ⟨schedule, follows⟩ := ih
    obtain ⟨made, after⟩ := follows.step step
    exact ⟨_, after⟩

/-- As long as calls are left, some thread can go on: whoever holds the lock, or
else anyone. -/
theorem Follows.progress (follows : Follows calls store programs schedule state)
    (stuck : ∀ next, ¬ Step calls state next) : state.Done := by
  have free : state.holder = none := by
    cases held : state.holder with
    | none => rfl
    | some holder =>
      obtain ⟨left, here⟩ := (follows.exclusive holder).mpr held
      cases left with
      | nil => exact absurd (.unlock here) (stuck _)
      | cons change left => exact absurd (.change here) (stuck _)
  intro thread
  cases here : state.place thread with
  | idle =>
    refine ⟨rfl, ?_⟩
    cases next : state.todo thread with
    | nil => rfl
    | cons op later => exact absurd (.call here next) (stuck _)
  | preparing op left =>
    cases left with
    | cons change left => exact absurd (.prepare here) (stuck _)
    | nil =>
      cases needed : calls.locks op (state.own thread) with
      | false => exact absurd (.skip here needed) (stuck _)
      | true => exact absurd (.lock here needed free) (stuck _)
  | inside left => exact absurd ⟨left, here⟩ (follows.outside free thread)

/-- Where all calls have been made, the threads have done what the whole calls do. -/
theorem Follows.settled (follows : Follows calls store programs schedule state) (done : state.Done) :
    (∀ thread, part thread schedule = programs thread) ∧ state.shared = (calls.play store schedule).shared ∧
      state.own = (calls.play store schedule).own := by
  refine ⟨fun thread => ?_, follows.free ?_, funext fun thread => ?_⟩
  · have whole := follows.divided thread
    rw [(done thread).1, (done thread).2] at whole
    simpa [Place.begun] using whole
  · cases held : state.holder with
    | none => rfl
    | some holder =>
      obtain ⟨left, here⟩ := (follows.exclusive holder).mpr held
      rw [(done holder).1] at here
      cases here
  · have mine := follows.agrees thread
    unfold Agrees at mine
    rw [(done thread).1] at mine
    exact mine

/-- Threads that cannot go on have made all their calls, and what they have done
is what the calls do one after the other, in some order that keeps the order of
each thread. -/
theorem serialized (run : Relation.ReflTransGen (Step calls) (.start store programs) state)
    (stuck : ∀ next, ¬ Step calls state next) :
    ∃ schedule, (∀ thread, part thread schedule = programs thread) ∧
      state.shared = (calls.play store schedule).shared ∧ state.own = (calls.play store schedule).own := by
  obtain ⟨schedule, follows⟩ := follows_of_run run
  exact ⟨schedule, follows.settled (follows.progress stuck)⟩

end Step

/-! ### The threads come to an end -/

section Termination
variable [Fintype Thread]

/-- The steps a thread has left where it is, with the one that leads away. -/
def Place.steps : Place Op σ ρ → Nat
  | .idle => 0
  | .preparing _ left => left.length + 1
  | .inside left => left.length + 1

/-- Calls to make, calls begun without the lock, and steps to take. -/
def State.left (state : State Thread Op σ ρ) : ℕ ×ₗ ℕ ×ₗ ℕ :=
  toLex (∑ thread, (state.todo thread).length,
    toLex (∑ thread, (state.place thread).begun.length, ∑ thread, (state.place thread).steps))

theorem sum_update {α : Type} (weight : α → ℕ) (held : Thread → α) (thread : Thread) (new : α) :
    (∑ other, weight (Function.update held thread new other)) + weight (held thread) =
      (∑ other, weight (held other)) + weight new := by
  have others : ∑ other ∈ Finset.univ.erase thread, weight (Function.update held thread new other) =
      ∑ other ∈ Finset.univ.erase thread, weight (held other) := by
    apply Finset.sum_congr rfl
    intro other member
    rw [Function.update_of_ne (Finset.ne_of_mem_erase member)]
  rw [← Finset.add_sum_erase _ _ (Finset.mem_univ thread), ← Finset.add_sum_erase _ (fun other => weight (held other))
    (Finset.mem_univ thread), others, Function.update_self]
  omega

/-- The thread is no longer before the lock with its call. -/
theorem left_lt_of_begun {before after : State Thread Op σ ρ} {thread : Thread} {new : Place Op σ ρ}
    (todo : after.todo = before.todo) (place : after.place = Function.update before.place thread new)
    (fewer : new.begun.length < (before.place thread).begun.length) : after.left < before.left := by
  have begun := sum_update (fun place => place.begun.length) before.place thread new
  simp only [State.left, Prod.Lex.toLex_lt_toLex, todo, place]
  refine Or.inr ⟨trivial, Or.inl ?_⟩
  omega

/-- The thread has fewer steps left where it is. -/
theorem left_lt_of_steps {before after : State Thread Op σ ρ} {thread : Thread} {new : Place Op σ ρ}
    (todo : after.todo = before.todo) (place : after.place = Function.update before.place thread new)
    (same : new.begun.length = (before.place thread).begun.length) (fewer : new.steps < (before.place thread).steps) :
    after.left < before.left := by
  have begun := sum_update (fun place => place.begun.length) before.place thread new
  have steps := sum_update Place.steps before.place thread new
  simp only [State.left, Prod.Lex.toLex_lt_toLex, todo, place]
  refine Or.inr ⟨trivial, Or.inr ⟨?_, ?_⟩⟩ <;> omega

/-- Every step leaves less to do. -/
theorem left_lt (step : Step calls before after) : after.left < before.left := by
  cases step with
  | @call thread op later here next =>
    have fewer := sum_update List.length before.todo thread later
    rw [next, List.length_cons] at fewer
    simp only [State.left, Prod.Lex.toLex_lt_toLex]
    left
    omega
  | prepare here => exact left_lt_of_steps rfl rfl (by rw [here]; rfl) (by simp [here, Place.steps])
  | skip here unneeded => exact left_lt_of_begun rfl rfl (by simp [here, Place.begun])
  | lock here needed free => exact left_lt_of_begun rfl rfl (by simp [here, Place.begun])
  | change here => exact left_lt_of_steps rfl rfl (by rw [here]; rfl) (by simp [here, Place.steps])
  | unlock here => exact left_lt_of_steps rfl rfl (by rw [here]; rfl) (by simp [here, Place.steps])

/-- No run goes on for ever. -/
theorem terminates (calls : Calls Thread Op σ ρ) : WellFounded fun after before => Step calls before after :=
  (InvImage.wf State.left wellFounded_lt).mono fun _ _ step => left_lt step

end Termination

end Steps

end Libftpp.CriticalSections
