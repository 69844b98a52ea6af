import Mathlib.Data.List.Flatten
import Mathlib.Data.List.Range
import Libftpp.ThreadSafeIOStream

/-! The thread wrapper (`thread.hpp`, `thread.cpp`). `start` on a thread that runs
waits for it, so the owner never has two of them, and the destructor waits for
the last. What `start` reports then stays in the buffer of the stream. -/
namespace Libftpp
open Threads

/-- One call of `_funct`: what it does, and whether it ends with an exception. It
does end: a function that runs for ever is not described. -/
structure Thread.Course (Action : Type) where
  actions : List Action
  throws : Bool
  deriving DecidableEq

/-- A `std::thread` that was launched, and how many of its actions it has done. -/
structure Thread.Runner where
  passed : Nat
  finished : Bool
  deriving DecidableEq

/-- What the owner of a thread does between its construction and its destruction. -/
inductive Thread.Call (Action : Type) where
  | other (action : Action)
  | start
  | stop
  deriving DecidableEq

/-- What the owner is about to do: a call, a part of one, or the end of the
destructor, which destroys `_t`. -/
inductive Thread.Instruction (Action : Type) where
  | call (call : Thread.Call Action)
  | join (index : Nat)
  | launch
  | destroy
  deriving DecidableEq

/-- What has happened. The threads are known by number. -/
inductive Thread.Note (Action : Type) where
  | other (action : Action)
  | launched (index : Nat)
  | acted (index : Nat) (action : Action)
  | ended (index : Nat)
  | joined (index : Nat)
  deriving DecidableEq

/-- `class Thread`, with what its owner has ahead of it and the threads that were
launched. `t` is the one `_t` stands for, if it is joinable. -/
structure Thread (Action : Type) where
  t : Option Nat
  stream : ThreadSafeIOStream
  cout : List Char
  ahead : List (Thread.Instruction Action)
  runners : List Thread.Runner
  terminated : Bool
  log : List (Thread.Note Action)

namespace Thread
variable {Action : Type}

/-- `Thread::Thread`, and an owner that will make these calls and destroy it. -/
def new (name : List Char) (calls : List (Call Action)) : Thread Action where
  t := none
  stream := ⟨[], name ++ [':', ' ']⟩
  cout := []
  ahead := calls.map .call ++ [.call .stop, .destroy]
  runners := []
  terminated := false
  log := []

/-- What `start` reports. -/
def alreadyRunning : List Char := "[ERROR] Thread already running [ERROR]".toList

/-- `Thread::start`, up to the call of `stop`. -/
def start (thread : Thread Action) : Thread Action :=
  if thread.t.isSome then
    let inserted := thread.stream.insertText alreadyRunning
    { thread with
      stream := inserted.1
      cout := thread.cout ++ inserted.2
      ahead := .call .stop :: .launch :: thread.ahead }
  else { thread with ahead := .launch :: thread.ahead }

/-- `Thread::stop`, up to `_t.join()`. -/
def stop (thread : Thread Action) : Thread Action :=
  match thread.t with
  | none => thread
  | some index => { thread with ahead := .join index :: thread.ahead }

/-- `_t.join()`, which waits. -/
def join (thread : Thread Action) (index : Nat) : Option (Thread Action) :=
  match thread.runners[index]? with
  | some ⟨_, true⟩ => some { thread with t := none, log := thread.log ++ [.joined index] }
  | some ⟨_, false⟩ | none => none

/-- `_t = std::thread(_funct)`. A `_t` that is joinable must not be overwritten. -/
def launch (thread : Thread Action) : Thread Action :=
  let launched : Thread Action := { thread with
    runners := thread.runners ++ [⟨0, false⟩]
    log := thread.log ++ [.launched thread.runners.length] }
  if thread.t.isSome then { launched with terminated := true }
  else { launched with t := some thread.runners.length }

/-- The next step of the owner. -/
def own (thread : Thread Action) : Option (Thread Action) :=
  match thread.ahead with
  | [] => none
  | .call (.other action) :: ahead => some { thread with ahead, log := thread.log ++ [.other action] }
  | .call .start :: ahead => some ({ thread with ahead } : Thread Action).start
  | .call .stop :: ahead => some ({ thread with ahead } : Thread Action).stop
  | .join index :: ahead => ({ thread with ahead } : Thread Action).join index
  | .launch :: ahead => some ({ thread with ahead } : Thread Action).launch
  | .destroy :: ahead => some { thread with ahead, terminated := thread.t.isSome }

/-- The next step of a thread. An exception that gets out of `_funct` ends the
program. -/
def advance (course : Nat → Course Action) (thread : Thread Action) (index : Nat) : Option (Thread Action) :=
  match thread.runners[index]? with
  | none | some ⟨_, true⟩ => none
  | some ⟨passed, false⟩ =>
    match (course index).actions[passed]? with
    | some action =>
      some { thread with
        runners := thread.runners.set index ⟨passed + 1, false⟩
        log := thread.log ++ [.acted index action] }
    | none =>
      if (course index).throws then some { thread with terminated := true }
      else
        some { thread with
          runners := thread.runners.set index ⟨passed, true⟩
          log := thread.log ++ [.ended index] }

/-- Who takes a step. -/
inductive Turn where
  | owner
  | runner (index : Nat)
  deriving DecidableEq

def step (course : Nat → Course Action) (thread : Thread Action) (turn : Turn) : Option (Thread Action) :=
  if thread.terminated then none
  else
    match turn with
    | .owner => thread.own
    | .runner index => thread.advance course index

/-! ### What the log tells of the threads -/

/-- The thread a note is about. -/
def Note.about : Note Action → Option Nat
  | .launched index | .acted index _ | .ended index => some index
  | .other _ | .joined _ => none

/-- What a thread has noted. -/
def told (course : Nat → Course Action) (index : Nat) (runner : Runner) : List (Note Action) :=
  .launched index :: ((course index).actions.take runner.passed).map (.acted index) ++
    if runner.finished then [.ended index] else []

/-- What a thread notes altogether. -/
def whole (course : Nat → Course Action) (index : Nat) : List (Note Action) :=
  .launched index :: (course index).actions.map (.acted index) ++ [.ended index]

/-- Nothing is heard of a thread after it was joined, nor of an earlier one. -/
def Note.Respects (earlier later : Note Action) : Prop :=
  ∀ index other, earlier = .joined index → later.about = some other → index < other

/-- How many threads these calls launch. -/
def starts : List (Call Action) → Nat
  | [] => 0
  | .start :: calls => starts calls + 1
  | .stop :: calls | .other _ :: calls => starts calls

/-! ### What the owner has ahead of it -/

/-- How many threads the owner will still launch. -/
def launches : List (Instruction Action) → Nat
  | [] => 0
  | .call .start :: ahead | .launch :: ahead => launches ahead + 1
  | .call .stop :: ahead | .call (.other _) :: ahead | .join _ :: ahead | .destroy :: ahead => launches ahead

/-- The owner joins only what `_t` stands for, launches and destroys only when
`_t` is not joinable, and leaves it so. -/
def Heeds : Option Nat → List (Instruction Action) → Prop
  | t, [] => t = none
  | t, .call (.other _) :: ahead => Heeds t ahead
  | _, .call .start :: ahead => ∀ t, Heeds t ahead
  | _, .call .stop :: ahead => Heeds none ahead
  | t, .join index :: ahead => t = some index ∧ Heeds none ahead
  | t, .launch :: ahead => t = none ∧ ∀ t, Heeds t ahead
  | t, .destroy :: ahead => t = none ∧ Heeds none ahead

theorem heeds_calls (calls : List (Call Action)) (t : Option Nat) :
    Heeds t (calls.map Instruction.call ++ [.call .stop, .destroy]) := by
  induction calls generalizing t with
  | nil => exact ⟨rfl, rfl⟩
  | cons call calls ih =>
    cases call with
    | other action => exact ih t
    | start => exact ih
    | stop => exact ih none

theorem launches_calls (calls : List (Call Action)) :
    launches (calls.map Instruction.call ++ [.call .stop, .destroy]) = starts calls := by
  induction calls with
  | nil => rfl
  | cons call calls ih =>
    cases call with
    | other action => exact ih
    | start => exact congrArg (· + 1) ih
    | stop => exact ih

variable {course : Nat → Course Action} {thread : Thread Action}

/-! ### The steps -/

/-- What one step makes of a thread that has not ended the program. -/
inductive Step (course : Nat → Course Action) (thread : Thread Action) : Thread Action → Prop where
  | other {ahead : List (Instruction Action)} (shape : thread.ahead = .call (.other action) :: ahead) :
      Step course thread { thread with ahead, log := thread.log ++ [.other action] }
  | start {ahead : List (Instruction Action)} (shape : thread.ahead = .call .start :: ahead) :
      Step course thread ({ thread with ahead } : Thread Action).start
  | stop {ahead : List (Instruction Action)} (shape : thread.ahead = .call .stop :: ahead) :
      Step course thread ({ thread with ahead } : Thread Action).stop
  | joined {ahead : List (Instruction Action)} {passed : Nat} (shape : thread.ahead = .join index :: ahead)
      (found : thread.runners[index]? = some ⟨passed, true⟩) :
      Step course thread { thread with t := none, ahead, log := thread.log ++ [.joined index] }
  | launch {ahead : List (Instruction Action)} (shape : thread.ahead = .launch :: ahead) :
      Step course thread ({ thread with ahead } : Thread Action).launch
  | destroy {ahead : List (Instruction Action)} (shape : thread.ahead = .destroy :: ahead) :
      Step course thread { thread with ahead, terminated := thread.t.isSome }
  | acted {passed : Nat} (found : thread.runners[index]? = some ⟨passed, false⟩)
      (next : (course index).actions[passed]? = some action) :
      Step course thread
        { thread with
          runners := thread.runners.set index ⟨passed + 1, false⟩
          log := thread.log ++ [.acted index action] }
  | threw {passed : Nat} (found : thread.runners[index]? = some ⟨passed, false⟩)
      (last : (course index).actions[passed]? = none) (throws : (course index).throws) :
      Step course thread { thread with terminated := true }
  | ended {passed : Nat} (found : thread.runners[index]? = some ⟨passed, false⟩)
      (last : (course index).actions[passed]? = none) :
      Step course thread
        { thread with
          runners := thread.runners.set index ⟨passed, true⟩
          log := thread.log ++ [.ended index] }

theorem own_steps (course : Nat → Course Action) (stepped : thread.own = some after) : Step course thread after := by
  rcases shape : thread.ahead with _ | ⟨(action | _ | _) | index | _ | _, ahead⟩ <;> rw [own, shape] at stepped
  case cons.join =>
    rcases found : thread.runners[index]? with _ | ⟨passed, _ | _⟩ <;> simp only [join, found] at stepped <;>
      cases stepped
    exact .joined shape found
  all_goals cases stepped
  · exact .other shape
  · exact .start shape
  · exact .stop shape
  · exact .launch shape
  · exact .destroy shape

theorem advance_steps (stepped : thread.advance course index = some after) : Step course thread after := by
  rcases found : thread.runners[index]? with _ | ⟨passed, _ | _⟩ <;> simp only [advance, found] at stepped
  · cases stepped
  · cases next : (course index).actions[passed]? with
    | some action =>
      rw [next] at stepped
      cases stepped
      exact .acted found next
    | none =>
      rw [next] at stepped
      dsimp only at stepped
      split at stepped <;> cases stepped
      · exact .threw found next ‹_›
      · exact .ended found next
  · cases stepped

theorem step_steps (stepped : step course thread turn = some after) :
    thread.terminated = false ∧ Step course thread after := by
  unfold step at stepped
  split at stepped
  · cases stepped
  refine ⟨by simpa using ‹¬ thread.terminated = true›, ?_⟩
  cases turn with
  | owner => exact own_steps course stepped
  | runner index => exact advance_steps stepped

/-! ### What holds in every run -/

variable {ahead : List (Instruction Action)}

/-- The thread a joinable `_t` stands for is the last that was launched, and all
others are over. -/
structure Orderly (course : Nat → Course Action) (count : Nat) (thread : Thread Action) : Prop where
  attached : ∀ index, thread.t = some index → index + 1 = thread.runners.length
  settled : ∀ index runner, thread.runners[index]? = some runner → thread.t ≠ some index → runner.finished
  complete : ∀ index runner, thread.runners[index]? = some runner → runner.finished →
    (course index).actions.length ≤ runner.passed
  counted : thread.runners.length + launches thread.ahead = count
  heeds : Heeds thread.t thread.ahead
  told : thread.log.filter (·.about.isSome) = (thread.runners.mapIdx (told course)).flatten
  known : ∀ note ∈ thread.log, ∀ index, note = .joined index →
    ∃ runner, thread.runners[index]? = some runner ∧ runner.finished
  respects : thread.log.Pairwise Note.Respects
  silent : thread.cout = [] ∧ '\n' ∉ thread.stream.buffer

theorem Orderly.new (name : List Char) (calls : List (Call Action)) :
    Orderly course (starts calls) (new name calls) where
  attached index same := by cases same
  settled index runner found := by cases found
  complete index runner found := by cases found
  counted := (Nat.zero_add _).trans (launches_calls calls)
  heeds := heeds_calls calls none
  told := rfl
  known note member := by cases member
  respects := List.Pairwise.nil
  silent := ⟨rfl, by simp [Thread.new]⟩

theorem of_snoc {runners : List Runner} (found : (runners ++ [last])[index]? = some runner) :
    runners[index]? = some runner ∨ index = runners.length ∧ runner = last := by
  rw [List.getElem?_append] at found
  split at found
  · exact Or.inl found
  · obtain ⟨inside, same⟩ := List.getElem?_eq_some_iff.mp found
    rw [List.length_singleton] at inside
    exact Or.inr ⟨by omega, by simpa using same.symm⟩

/-- Where a runner is not over, it is the last. -/
theorem Orderly.running (orderly : Orderly course count thread) {passed : Nat}
    (found : thread.runners[index]? = some ⟨passed, false⟩) :
    ∃ earlier, thread.runners = earlier ++ [⟨passed, false⟩] ∧ earlier.length = index := by
  have attached : thread.t = some index := by
    by_contra other
    cases orderly.settled index _ found other
  have last := orderly.attached index attached
  obtain ⟨inside, same⟩ := List.getElem?_eq_some_iff.mp found
  refine ⟨thread.runners.take index, ?_, List.length_take_of_le inside.le⟩
  rw [← same, List.take_append_getElem inside, List.take_of_length_le last.ge]

/-- A note of a thread after which none was joined. -/
theorem respects_note {log : List (Note Action)} (respects : log.Pairwise Note.Respects) {note : Note Action}
    (later : ∀ index other, .joined index ∈ log → note.about = some other → index < other) :
    (log ++ [note]).Pairwise Note.Respects := by
  refine List.pairwise_append.mpr ⟨respects, List.pairwise_singleton .., ?_⟩
  rintro earlier member _ (_ | ⟨_, never⟩) index other rfl about
  · exact later index other member about
  · cases never

/-- The owner does something of its own. -/
theorem Orderly.other (orderly : Orderly course count thread) (shape : thread.ahead = .call (.other action) :: ahead) :
    Orderly course count { thread with ahead, log := thread.log ++ [.other action] } := by
  have counted := orderly.counted
  have heeds := orderly.heeds
  rw [shape] at counted heeds
  refine { orderly with counted, heeds, told := ?_, known := ?_, respects := ?_ }
  · rw [List.filter_append, orderly.told]
    exact List.append_nil _
  · intro note member index same
    rcases List.mem_append.mp member with member | member
    · exact orderly.known note member index same
    · cases (List.mem_singleton.mp member).symm.trans same
  · exact respects_note orderly.respects fun _ _ _ never => by cases never

theorem Orderly.start (orderly : Orderly course count thread) (shape : thread.ahead = .call .start :: ahead) :
    Orderly course count ({ thread with ahead } : Thread Action).start := by
  have counted := orderly.counted
  have heeds := orderly.heeds
  rw [shape] at counted heeds
  unfold Thread.start
  split
  · obtain ⟨quiet, unbroken⟩ := orderly.silent
    have line : '\n' ∉ thread.stream.buffer ++ alreadyRunning := by
      rw [List.mem_append, not_or]
      exact ⟨unbroken, by decide⟩
    have inserted : thread.stream.insertText alreadyRunning =
        ({ thread.stream with buffer := thread.stream.buffer ++ alreadyRunning }, []) := if_pos line
    refine { orderly with counted, heeds := ⟨rfl, heeds⟩, silent := ?_ }
    rw [inserted]
    exact ⟨(List.append_nil _).trans quiet, line⟩
  · have free : thread.t = none := Option.not_isSome_iff_eq_none.mp ‹_›
    exact { orderly with counted, heeds := ⟨free, heeds⟩ }

theorem Orderly.stop (orderly : Orderly course count thread) (shape : thread.ahead = .call .stop :: ahead) :
    Orderly course count ({ thread with ahead } : Thread Action).stop := by
  have counted := orderly.counted
  have heeds := orderly.heeds
  rw [shape] at counted heeds
  unfold Thread.stop
  split
  · rename_i free
    exact { orderly with counted, heeds := by rw [show thread.t = none from free]; exact heeds }
  · rename_i index same
    exact { orderly with counted, heeds := ⟨same, heeds⟩ }

theorem Orderly.joined (orderly : Orderly course count thread) (shape : thread.ahead = .join index :: ahead)
    {passed : Nat} (found : thread.runners[index]? = some ⟨passed, true⟩) :
    Orderly course count { thread with t := none, ahead, log := thread.log ++ [.joined index] } := by
  have counted := orderly.counted
  have heeds := orderly.heeds
  rw [shape] at counted heeds
  refine { orderly with
    attached := nofun, settled := ?_, counted, heeds := heeds.2, told := ?_, known := ?_, respects := ?_ }
  · intro other runner here _
    by_cases same : other = index
    · subst same
      cases here.symm.trans found
      rfl
    · refine orderly.settled other runner here fun attached => same ?_
      exact Option.some.inj (attached.symm.trans heeds.1)
  · rw [List.filter_append, orderly.told]
    exact List.append_nil _
  · intro note member other same
    rcases List.mem_append.mp member with member | member
    · exact orderly.known note member other same
    · cases (List.mem_singleton.mp member).symm.trans same
      exact ⟨_, found, rfl⟩
  · exact respects_note orderly.respects fun _ _ _ never => by cases never

theorem Orderly.launch (orderly : Orderly course count thread) (shape : thread.ahead = .launch :: ahead) :
    Orderly course count ({ thread with ahead } : Thread Action).launch := by
  have counted := orderly.counted
  have heeds := orderly.heeds
  rw [shape] at counted heeds
  have free : ¬ thread.t.isSome := by rw [heeds.1]; decide
  rw [Thread.launch, if_neg free]
  refine ⟨?_, ?_, ?_, ?_, heeds.2 _, ?_, ?_, ?_, orderly.silent⟩
  · rintro index ⟨⟩
    simp
  · intro index runner found other
    rcases of_snoc found with old | ⟨rfl, _⟩
    · exact orderly.settled index runner old (by rw [heeds.1]; nofun)
    · exact absurd rfl other
  · intro index runner found finished
    rcases of_snoc found with old | ⟨_, rfl⟩
    · exact orderly.complete index runner old finished
    · cases finished
  · rw [← counted]
    simp [launches]
    omega
  · rw [List.filter_append, orderly.told, List.mapIdx_concat, List.flatten_append]
    rfl
  · intro note member index same
    rcases List.mem_append.mp member with member | member
    · obtain ⟨runner, found, finished⟩ := orderly.known note member index same
      exact ⟨runner, List.getElem?_append_left (List.getElem?_eq_some_iff.mp found).1 ▸ found, finished⟩
    · cases (List.mem_singleton.mp member).symm.trans same
  · refine respects_note orderly.respects fun index other member about => ?_
    cases about
    obtain ⟨runner, found, _⟩ := orderly.known _ member index rfl
    exact (List.getElem?_eq_some_iff.mp found).1

/-- The running thread goes on, and notes it. -/
theorem Orderly.moved (orderly : Orderly course count thread) {passed : Nat} {now : Runner} {note : Note Action}
    (found : thread.runners[index]? = some ⟨passed, false⟩) (about : note.about = some index)
    (noted : Thread.told course index now = Thread.told course index ⟨passed, false⟩ ++ [note])
    (through : now.finished → (course index).actions.length ≤ now.passed) :
    Orderly course count { thread with runners := thread.runners.set index now, log := thread.log ++ [note] } := by
  obtain ⟨earlier, shape, rfl⟩ := orderly.running found
  have moved : thread.runners.set earlier.length now = earlier ++ [now] := by
    rw [shape, List.set_append_right _ _ le_rfl, Nat.sub_self]
    rfl
  have before : ∀ {index : Nat} {runner}, earlier[index]? = some runner → thread.runners[index]? = some runner := by
    intro index runner here
    rw [shape, List.getElem?_append_left (List.getElem?_eq_some_iff.mp here).1]
    exact here
  have attached : thread.t = some earlier.length := by
    by_contra other
    cases orderly.settled _ _ found other
  -- The thread in question has not been joined, as it has not come to its end.
  have joined : ∀ other, .joined other ∈ thread.log → ∃ runner, earlier[other]? = some runner ∧ runner.finished := by
    intro other member
    obtain ⟨runner, here, finished⟩ := orderly.known _ member other rfl
    rw [shape] at here
    rcases of_snoc here with old | ⟨rfl, rfl⟩
    · exact ⟨runner, old, finished⟩
    · cases finished
  rw [moved]
  refine ⟨?_, ?_, ?_, ?_, orderly.heeds, ?_, ?_, ?_, orderly.silent⟩
  · intro index same
    cases attached.symm.trans same
    simp
  · intro index runner here other
    rcases of_snoc here with old | ⟨rfl, _⟩
    · exact orderly.settled index runner (before old) other
    · exact absurd attached other
  · intro index runner here finished
    rcases of_snoc here with old | ⟨rfl, rfl⟩
    · exact orderly.complete index runner (before old) finished
    · exact through finished
  · rw [← orderly.counted, shape, List.length_append, List.length_append]
    rfl
  · have own : [note].filter (·.about.isSome) = [note] := List.filter_eq_self.mpr (by simp [about])
    have whole := orderly.told
    rw [shape, List.mapIdx_concat, List.flatten_append] at whole
    rw [List.filter_append, own, whole, List.mapIdx_concat, List.flatten_append, List.append_assoc]
    simp [noted]
  · rintro _ member other rfl
    rcases List.mem_append.mp member with member | member
    · obtain ⟨runner, old, finished⟩ := joined other member
      exact ⟨runner, by rw [List.getElem?_append_left (List.getElem?_eq_some_iff.mp old).1, old], finished⟩
    · cases List.mem_singleton.mp member
      cases about
  · refine respects_note orderly.respects fun other own member same => ?_
    cases about.symm.trans same
    obtain ⟨_, old, _⟩ := joined other member
    exact (List.getElem?_eq_some_iff.mp old).1

theorem told_acted {index passed : Nat} {action : Action} (next : (course index).actions[passed]? = some action) :
    told course index ⟨passed + 1, false⟩ = told course index ⟨passed, false⟩ ++ [.acted index action] := by
  simp [told, List.take_add_one, next]

theorem told_ended (index passed : Nat) :
    told course index ⟨passed, true⟩ = told course index ⟨passed, false⟩ ++ [.ended index] := by
  simp [told]

theorem Orderly.step (orderly : Orderly course count before) (step : Step course before after) :
    Orderly course count after := by
  cases step with
  | other shape => exact orderly.other shape
  | start shape => exact orderly.start shape
  | stop shape => exact orderly.stop shape
  | joined shape finished => exact orderly.joined shape finished
  | launch shape => exact orderly.launch shape
  | destroy shape =>
    have counted := orderly.counted
    have heeds := orderly.heeds
    rw [shape] at counted heeds
    exact { orderly with counted, heeds := heeds.1.symm ▸ heeds.2 }
  | acted found next => exact orderly.moved found rfl (told_acted next) nofun
  | threw found last throws => exact { orderly with }
  | ended found last =>
    have through := List.getElem?_eq_none_iff.mp last
    exact orderly.moved found rfl (told_ended ..) fun _ => through

/-- Only an exception ends the program. -/
theorem Orderly.terminated (orderly : Orderly course count before) (running : before.terminated = false)
    (step : Step course before after) (finished : after.terminated) : ∃ index, (course index).throws := by
  have free : ∀ {instruction ahead}, before.ahead = instruction :: ahead → Heeds before.t (instruction :: ahead) :=
    fun shape => shape ▸ orderly.heeds
  cases step with
  | other => exact absurd finished (by simp [running])
  | start => exact absurd finished (by unfold Thread.start; split <;> simp [running])
  | stop => exact absurd finished (by unfold Thread.stop; split <;> simp [running])
  | joined => exact absurd finished (by simp [running])
  | launch shape => exact absurd finished (by simp [Thread.launch, (free shape).1, running])
  | destroy shape => exact absurd finished (by simp [(free shape).1])
  | acted => exact absurd finished (by simp [running])
  | threw found last throws => exact ⟨_, throws⟩
  | ended => exact absurd finished (by simp [running])

/-- What holds of every state: it is orderly, or the program has ended with an
exception. -/
def Sound (course : Nat → Course Action) (count : Nat) (thread : Thread Action) : Prop :=
  Orderly course count thread ∧ (thread.terminated → ∃ index, (course index).throws)

theorem Sound.step (sound : Sound course count before) (stepped : step course before turn = some after) :
    Sound course count after := by
  obtain ⟨running, step⟩ := step_steps stepped
  exact ⟨sound.1.step step, sound.1.terminated running step⟩

theorem sound_of_run {name : List Char} {calls : List (Call Action)} {schedule : List Turn}
    (ran : run (step course) (new name calls) schedule = some thread) : Sound course (starts calls) thread :=
  run_keeps (fun _ _ _ _ stepped sound => sound.step stepped) ⟨.new name calls, nofun⟩ ran

theorem told_finished {runner : Runner} (finished : runner.finished)
    (through : (course index).actions.length ≤ runner.passed) :
    told course index runner = whole course index := by
  rw [told, whole, List.take_of_length_le through, if_pos finished]

theorem told_prefix (course : Nat → Course Action) (index : Nat) (runner : Runner)
    (through : runner.finished → (course index).actions.length ≤ runner.passed) :
    told course index runner <+: whole course index := by
  cases finished : runner.finished with
  | true => exact (told_finished finished (through finished)).symm ▸ List.prefix_rfl
  | false =>
    refine ⟨((course index).actions.drop runner.passed).map (.acted index) ++ [.ended index], ?_⟩
    simp only [told, finished, Bool.false_eq_true, ↓reduceIte, List.append_nil, List.cons_append, whole]
    rw [← List.append_assoc, ← List.map_append, List.take_append_drop]

/-- Threads that are over have noted all there is. -/
theorem told_all {runners : List Runner}
    (complete : ∀ index runner, runners[index]? = some runner → (course index).actions.length ≤ runner.passed)
    (finished : ∀ runner ∈ runners, runner.finished) :
    (runners.mapIdx (told course)).flatten = (List.range runners.length).flatMap (whole course) := by
  induction runners using List.reverseRecOn with
  | nil => rfl
  | append_singleton runners runner ih =>
    have last := complete runners.length runner List.getElem?_concat_length
    rw [List.mapIdx_concat, List.flatten_append, List.length_append, List.length_singleton, List.range_succ,
      List.flatMap_append, ih, List.flatten_singleton, List.flatMap_singleton,
      told_finished (finished runner (by simp)) last]
    · intro index other found
      exact complete index other ((List.getElem?_append_left (List.getElem?_eq_some_iff.mp found).1).trans found)
    · exact fun other member => finished other (List.mem_append_left _ member)

/-- Of the threads launched so far, all but the last have noted all there is. -/
theorem Orderly.sequential (orderly : Orderly course count thread) :
    thread.log.filter (·.about.isSome) <+: (List.range count).flatMap (whole course) := by
  have launched : List.range count =
      List.range thread.runners.length ++ (List.range (launches thread.ahead)).map (thread.runners.length + ·) := by
    rw [← orderly.counted, List.range_add]
  rw [orderly.told, launched, List.flatMap_append]
  apply List.IsPrefix.trans _ (List.prefix_append _ _)
  rcases List.eq_nil_or_concat thread.runners with none | ⟨earlier, last, shape⟩
  · rw [none]
    exact List.nil_prefix
  · rw [List.concat_eq_append] at shape
    have found : ∀ {index : Nat} {runner}, earlier[index]? = some runner → thread.runners[index]? = some runner := by
      intro index runner here
      rw [shape, List.getElem?_append_left (List.getElem?_eq_some_iff.mp here).1]
      exact here
    have finished : ∀ (index : Nat) (runner : Runner), earlier[index]? = some runner → runner.finished := by
      intro index runner here
      apply orderly.settled index runner (found here)
      intro attached
      have last := orderly.attached index attached
      have inside := (List.getElem?_eq_some_iff.mp here).1
      rw [shape, List.length_append, List.length_singleton] at last
      omega
    have all := @told_all _ course earlier
      (fun index runner here => orderly.complete index runner (found here) (finished index runner here))
      (fun runner member => by
        obtain ⟨index, here⟩ := List.getElem?_of_mem member
        exact finished index runner here)
    rw [shape, List.mapIdx_concat, List.flatten_append, all, List.length_append, List.length_singleton,
      List.range_succ, List.flatMap_append, List.flatten_singleton, List.flatMap_singleton]
    apply List.prefix_append_right_inj _ |>.mpr
    apply told_prefix
    apply orderly.complete earlier.length last
    rw [shape, List.getElem?_concat_length]

/-! ### Every run ends -/

/-- How many steps the owner has ahead of it, with those of the threads it will
launch. -/
def effort (course : Nat → Course Action) : Nat → List (Instruction Action) → Nat
  | _, [] => 0
  | next, .call .start :: ahead => (course next).actions.length + 5 + effort course (next + 1) ahead
  | next, .launch :: ahead => (course next).actions.length + 2 + effort course (next + 1) ahead
  | next, .call .stop :: ahead => 2 + effort course next ahead
  | next, .call (.other _) :: ahead | next, .join _ :: ahead | next, .destroy :: ahead => 1 + effort course next ahead

/-- How many steps the running thread has ahead of it. -/
def rest (course : Nat → Course Action) (runners : List Runner) : Nat :=
  match runners.getLast? with
  | some ⟨passed, false⟩ => (course (runners.length - 1)).actions.length - passed + 1
  | some ⟨_, true⟩ | none => 0

def left (course : Nat → Course Action) (thread : Thread Action) : Nat :=
  effort course thread.runners.length thread.ahead + rest course thread.runners + if thread.terminated then 0 else 1

theorem rest_running (earlier : List Runner) (passed : Nat) :
    rest course (earlier ++ [⟨passed, false⟩]) = (course earlier.length).actions.length - passed + 1 := by
  simp [rest]

theorem rest_over (earlier : List Runner) (passed : Nat) : rest course (earlier ++ [⟨passed, true⟩]) = 0 := by
  simp [rest]

theorem Orderly.shrinks (orderly : Orderly course count before) (running : before.terminated = false)
    (step : Step course before after) : left course after < left course before := by
  cases step with
  | other shape =>
    simp only [left, shape, effort]
    omega
  | start shape =>
    unfold Thread.start
    split <;> simp only [left, shape, effort] <;> omega
  | stop shape =>
    unfold Thread.stop
    split <;> simp only [left, shape, effort] <;> omega
  | joined shape found =>
    simp only [left, shape, effort]
    omega
  | launch shape =>
    have free : ¬ before.t.isSome := by
      have heeds := orderly.heeds
      rw [shape] at heeds
      rw [heeds.1]
      decide
    simp only [Thread.launch, free, left, shape, effort, rest_running, List.length_append, List.length_singleton,
      Bool.false_eq_true, ↓reduceIte]
    omega
  | destroy shape =>
    simp only [left, shape, effort, running, Bool.false_eq_true, ↓reduceIte]
    split <;> omega
  | threw found last throws =>
    simp only [left, running, Bool.false_eq_true, ↓reduceIte]
    omega
  | @acted index action passed found next =>
    obtain ⟨earlier, shape, rfl⟩ := orderly.running found
    have inside := (List.getElem?_eq_some_iff.mp next).1
    simp only [left, shape, List.set_append_right _ _ le_rfl, Nat.sub_self, List.set_cons_zero, rest_running,
      List.length_append, List.length_singleton]
    omega
  | @ended index passed found last =>
    obtain ⟨earlier, shape, rfl⟩ := orderly.running found
    simp only [left, shape, List.set_append_right _ _ le_rfl, Nat.sub_self, List.set_cons_zero, rest_running,
      rest_over, List.length_append, List.length_singleton]
    omega

/-! ### Results -/

/-- Where nobody can go on, the owner is through with its calls and all threads
are over. -/
theorem Orderly.finished (orderly : Orderly course count thread) (running : thread.terminated = false)
    (stuck : ∀ turn, Thread.step course thread turn = none) :
    thread.ahead = [] ∧ thread.t = none ∧
      thread.log.filter (·.about.isSome) = (List.range count).flatMap (whole course) := by
  have heeds := orderly.heeds
  have owner := stuck .owner
  simp only [Thread.step, running, Bool.false_eq_true, ↓reduceIte] at owner
  rcases shape : thread.ahead with _ | ⟨(action | _ | _) | index | _ | _, ahead⟩ <;> rw [shape] at heeds
  · refine ⟨rfl, heeds, ?_⟩
    have finished : ∀ (index : Nat) (runner : Runner), thread.runners[index]? = some runner → runner.finished :=
      fun index runner found => orderly.settled index runner found (by rw [show thread.t = none from heeds]; nofun)
    have counted := orderly.counted
    rw [shape] at counted
    rw [orderly.told, ← counted]
    apply told_all
    · exact fun index runner found => orderly.complete index runner found (finished index runner found)
    · intro runner member
      obtain ⟨index, found⟩ := List.getElem?_of_mem member
      exact finished index runner found
  case cons.join =>
    -- The thread the owner waits for is not over, so it can go on.
    have last := orderly.attached index heeds.1
    have runner := stuck (.runner index)
    simp only [Thread.step, running, Bool.false_eq_true, ↓reduceIte] at runner
    rcases found : thread.runners[index]? with _ | ⟨passed, _ | _⟩
    · have outside := List.getElem?_eq_none_iff.mp found
      omega
    · simp only [advance, found] at runner
      split at runner
      · cases runner
      · split at runner <;> cases runner
    · simp only [own, shape, Thread.join, found] at owner
      cases owner
  all_goals
    rw [own, shape] at owner
    cases owner

/-- In every interleaving, what the launched threads do is what they would do one
after the other, nothing is heard of a thread that was joined, and nothing is
ever printed. The program ends early only with an exception of `_funct`. -/
theorem runs_one_at_a_time {name : List Char} {calls : List (Call Action)} {schedule : List Turn}
    (ran : run (step course) (new name calls) schedule = some thread) :
    thread.log.filter (·.about.isSome) <+: (List.range (starts calls)).flatMap (whole course) ∧
      thread.log.Pairwise Note.Respects ∧ thread.cout = [] ∧
      (thread.terminated → ∃ index, (course index).throws) := by
  obtain ⟨orderly, early⟩ := sound_of_run ran
  exact ⟨orderly.sequential, orderly.respects, orderly.silent.1, early⟩

/-- No interleaving goes on for ever. Where nobody can go on and `_funct` has not
thrown, the destructor has returned, and every `start` has had its thread. -/
theorem destroyed_after_all_runs {name : List Char} {calls : List (Call Action)} {schedule : List Turn}
    (ran : run (step course) (new name calls) schedule = some thread) :
    schedule.length ≤ left course (new name calls) ∧
      ((∀ turn, step course thread turn = none) →
        (thread.terminated ∧ ∃ index, (course index).throws) ∨
          thread.ahead = [] ∧ thread.t = none ∧
            thread.log.filter (·.about.isSome) = (List.range (starts calls)).flatMap (whole course)) := by
  obtain ⟨orderly, early⟩ := sound_of_run ran
  constructor
  · refine run_bounded (fun before turn after stepped (sound : Sound course (starts calls) before) => ?_)
      ⟨.new name calls, nofun⟩ ran
    obtain ⟨running, step⟩ := step_steps stepped
    exact ⟨sound.step stepped, sound.1.shrinks running step⟩
  · intro stuck
    cases finished : thread.terminated with
    | true => exact Or.inl ⟨rfl, early finished⟩
    | false => exact Or.inr (orderly.finished finished stuck)

section Witnesses

/-- Every thread does one thing. -/
private def once (_ : Nat) : Course Unit := ⟨[()], false⟩

/-- An owner that starts twice: the second `start` waits for the first thread. -/
private theorem restarted :
    run (step once) (new ['T'] [.start, .start])
        [.owner, .owner, .runner 0, .owner, .owner, .runner 0, .owner, .owner, .runner 1, .runner 1, .owner, .owner,
          .owner] =
      some
      { t := none, stream := ⟨alreadyRunning, ['T', ':', ' ']⟩, cout := [], ahead := []
        runners := [⟨1, true⟩, ⟨1, true⟩], terminated := false
        log := [.launched 0, .acted 0 (), .ended 0, .joined 0, .launched 1, .acted 1 (), .ended 1, .joined 1] } := rfl

theorem restart_waits : ∃ thread : Thread Unit, thread.stream.buffer = alreadyRunning ∧
    thread.log.filter (·.about.isSome) <+:
      (List.range (starts ([.start, .start] : List (Call Unit)))).flatMap (whole once) ∧
      thread.log.Pairwise Note.Respects ∧ thread.cout = [] ∧
      (thread.terminated → ∃ index, (once index).throws) :=
  ⟨_, rfl, runs_one_at_a_time restarted⟩

theorem restart_destroyed : ∃ thread : Thread Unit, thread.runners = [⟨1, true⟩, ⟨1, true⟩] ∧
    13 ≤ left once (new ['T'] [.start, .start]) ∧
      ((∀ turn, step once thread turn = none) →
        (thread.terminated ∧ ∃ index, (once index).throws) ∨
          thread.ahead = [] ∧ thread.t = none ∧
            thread.log.filter (·.about.isSome) =
              (List.range (starts ([.start, .start] : List (Call Unit)))).flatMap (whole once)) :=
  ⟨_, rfl, destroyed_after_all_runs restarted⟩

end Witnesses

end Thread
end Libftpp
