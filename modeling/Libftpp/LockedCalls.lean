import Libftpp.CriticalSections
import Libftpp.LoggerFile
import Libftpp.ThreadSafeQueue

/-! The three classes whose member functions hold a mutex, step by step:
`ThreadSafeIOStream` writes character by character, `ThreadSafeQueue` tests, reads
and removes in turn, and `Logger::log` inserts its operands one after the other.
Whatever these steps are mixed into, what comes of them is what the calls do at
once in some order, which the models of whole calls start from. -/
namespace Libftpp
open Program Threads CriticalSections

variable {Thread TType : Type} [DecidableEq Thread]

/-! ### `ThreadSafeIOStream` -/

namespace ThreadSafeIOStream

/-- A step under the lock: `std::cout`, and the stream of the thread that writes. -/
abbrev ConsoleStep (Thread : Type) := List (Thread × Char) × ThreadSafeIOStream → List (Thread × Char) × ThreadSafeIOStream

/-- `std::cout <<` for a text, character by character. -/
def writes (thread : Thread) (text : List Char) : List (ConsoleStep Thread) :=
  text.map fun char => fun (cout, stream) => (cout ++ [(thread, char)], stream)

/-- `_buffer.clear()` and `_buffer.str("")`. -/
def clears : ConsoleStep Thread := fun (cout, stream) => (cout, { stream with buffer := [] })

/-- What `operator<<` does under the lock with the lines of the buffer. `text` lies
between the cursor and the place where the next newline is sought. -/
def loopSteps (thread : Thread) (linePrefix text : List Char) : List Char → List (ConsoleStep Thread)
  | [] => clears :: writes thread text
  | char :: line =>
    if char = '\n' then
      writes thread linePrefix ++ (writes thread text ++ writes thread ['\n']) ++ loopSteps thread linePrefix [] line
    else loopSteps thread linePrefix (text ++ [char]) line

/-- The two `operator<<`. The text goes into the buffer, and the buffer is looked
at, before the lock is taken. -/
def calls : Calls Thread Insertion (List (Thread × Char)) ThreadSafeIOStream where
  prepare
    | .text value => [fun stream => { stream with buffer := stream.buffer ++ value }]
    | .endl => []
  locks
    | .text _, stream => decide ('\n' ∈ stream.buffer)
    | .endl, _ => true
  critical thread
    | .text _, stream => loopSteps thread stream.linePrefix [] stream.buffer
    | .endl, stream =>
      (if stream.buffer ≠ [] then
        writes thread stream.linePrefix ++ writes thread stream.buffer ++ [clears] else []) ++ writes thread ['\n']

omit [DecidableEq Thread] in
theorem follow_writes (thread : Thread) (text : List Char) (cout : List (Thread × Char)) (stream : ThreadSafeIOStream) :
    follow (writes thread text) (cout, stream) = (cout ++ text.map fun char => (thread, char), stream) := by
  induction text generalizing cout with
  | nil => simp [writes]
  | cons char text ih =>
    rw [writes, List.map_cons, follow_cons]
    exact (ih _).trans (by simp)

omit [DecidableEq Thread] in
/-- The loop writes what the model of the whole call writes, and empties the buffer. -/
theorem follow_loopSteps (thread : Thread) (linePrefix text line : List Char) (cout : List (Thread × Char))
    (stream : ThreadSafeIOStream) :
    follow (loopSteps thread linePrefix text line) (cout, stream) =
      (cout ++ (writeLines linePrefix text line).map fun char => (thread, char), { stream with buffer := [] }) := by
  induction line generalizing text cout with
  | nil =>
    rw [loopSteps, follow_cons, writeLines]
    exact follow_writes ..
  | cons char line ih =>
    rw [loopSteps, writeLines]
    split
    · rw [follow_append, follow_append, follow_append, follow_writes, follow_writes, follow_writes, ih]
      simp
    · exact ih ..

/-- A console whose calls are made at once. -/
def consoleOf (store : Store Thread (List (Thread × Char)) ThreadSafeIOStream) : Console Thread :=
  ⟨store.own, store.shared⟩

theorem atomically_eq_step (store : Store Thread (List (Thread × Char)) ThreadSafeIOStream) (turn : Thread × Insertion) :
    consoleOf (calls.atomically store turn) = (consoleOf store).step turn := by
  obtain ⟨thread, insertion⟩ := turn
  cases insertion with
  | text value =>
    by_cases breaks : '\n' ∈ (store.own thread).buffer ++ value
    · have looped := follow_loopSteps thread (store.own thread).linePrefix [] ((store.own thread).buffer ++ value)
        store.shared { store.own thread with buffer := (store.own thread).buffer ++ value }
      simp [Calls.atomically, calls, consoleOf, Console.step, insert, insertText, breaks, looped]
    · simp [Calls.atomically, calls, consoleOf, Console.step, insert, insertText, breaks]
  | endl =>
    by_cases empty : (store.own thread).buffer = []
    · simp [Calls.atomically, calls, consoleOf, Console.step, insert, insertEndl, flushBuffer, empty, follow_writes]
    · simp [Calls.atomically, calls, consoleOf, Console.step, insert, insertEndl, flushBuffer, empty, follow_append,
        follow_writes, clears]

theorem play_eq_play (prefixes : Thread → List Char) (schedule : List (Thread × Insertion)) :
    consoleOf (calls.play ⟨[], fun thread => ⟨[], prefixes thread⟩⟩ schedule) = Console.play prefixes schedule := by
  induction schedule using List.reverseRecOn with
  | nil => rfl
  | append_singleton schedule turn ih =>
    rw [play_snoc, atomically_eq_step, ih, Console.play, Console.play, List.foldl_append]
    rfl

/-- However the characters are mixed, the threads come to an end, and the console
and their streams are then as whole insertions leave them in some order. -/
theorem characters_refine_insertions [Fintype Thread] (prefixes : Thread → List Char)
    (programs : Thread → List Insertion) :
    WellFounded (fun after before : State Thread Insertion (List (Thread × Char)) ThreadSafeIOStream =>
      CriticalSections.Step calls before after) ∧
    ∀ state, Relation.ReflTransGen (CriticalSections.Step calls)
        (.start ⟨[], fun thread => ⟨[], prefixes thread⟩⟩ programs) state →
      (∀ next, ¬ CriticalSections.Step calls state next) →
        ∃ schedule, (∀ thread, part thread schedule = programs thread) ∧
          state.shared = (Console.play prefixes schedule).cout ∧
          state.own = (Console.play prefixes schedule).streams := by
  refine ⟨terminates calls, fun state run stuck => ?_⟩
  obtain ⟨schedule, parts, shared, own⟩ := serialized run stuck
  exact ⟨schedule, parts, shared.trans (congrArg Console.cout (play_eq_play prefixes schedule)),
    own.trans (congrArg Console.streams (play_eq_play prefixes schedule))⟩

end ThreadSafeIOStream

/-! ### `ThreadSafeQueue` -/

namespace ThreadSafeQueue

/-- What a caller gets. -/
inductive Answer (TType : Type) where
  | done
  | value (element : TType)
  | threw (what : String)
  deriving DecidableEq

/-- The local variable of a pop, whether an exception is on its way out of it, and
the answers the thread has got. -/
structure Caller (TType : Type) where
  value : Option TType
  unwinding : Bool
  answers : List (Answer TType)

/-- A step under the lock: the deque and the thread that calls. -/
abbrev QueueStep (TType : Type) := List TType × Caller TType → List TType × Caller TType

/-- `if (_queue.empty()) throw`. -/
def tests : QueueStep TType := fun (queue, caller) => (queue, { caller with unwinding := queue.isEmpty })

/-- What a pop does unless it has thrown. -/
def unlessThrown (step : QueueStep TType) : QueueStep TType := fun (queue, caller) =>
  if caller.unwinding then (queue, caller) else step (queue, caller)

/-- The way out of a pop, which is the end of its local variable. -/
def leaves : QueueStep TType := fun (queue, caller) =>
  let answer := if caller.unwinding then .threw "Trying to pop from an empty queue"
    else caller.value.elim .done .value
  (queue, ⟨none, false, caller.answers ++ [answer]⟩)

/-- The four member functions. -/
def calls : Calls Thread (Call TType) (List TType) (Caller TType) where
  prepare _ := []
  locks _ _ := true
  critical _
    | .pushBack newElement, _ => [fun (queue, caller) => (queue ++ [newElement], caller), leaves]
    | .pushFront newElement, _ => [fun (queue, caller) => (newElement :: queue, caller), leaves]
    | .popBack, _ => [tests, unlessThrown fun (queue, caller) => (queue, { caller with value := queue.getLast? }),
        unlessThrown fun (queue, caller) => (queue.dropLast, caller), leaves]
    | .popFront, _ => [tests, unlessThrown fun (queue, caller) => (queue, { caller with value := queue.head? }),
        unlessThrown fun (queue, caller) => (queue.tail, caller), leaves]

/-- What the whole call answers. -/
def answerOf (call : Call TType) (shared : ThreadSafeQueue TType) : Answer TType :=
  match call.perform.run shared with
  | .ok (some element) _ => .value element
  | .ok none _ => .done
  | .error (.thrown (.runtimeError what)) _ => .threw what
  | .error _ _ => .done

/-- The answers of whole calls, each with the thread that gets it. -/
def answers (schedule : List (Thread × Call TType)) : List (Thread × Answer TType) :=
  schedule.zipIdx.map fun (turn, index) => (turn.1, answerOf turn.2 (Session.play (schedule.take index)).shared)

omit [DecidableEq Thread] in
theorem answers_snoc (schedule : List (Thread × Call TType)) (turn : Thread × Call TType) :
    answers (schedule ++ [turn]) = answers schedule ++ [(turn.1, answerOf turn.2 (Session.play schedule).shared)] := by
  unfold answers
  rw [List.zipIdx_append, List.map_append]
  congr 1
  · apply List.map_congr_left
    rintro ⟨other, index⟩ member
    have bound : index < schedule.length :=
      (List.getElem?_eq_some_iff.mp (List.mem_zipIdx_iff_getElem?.mp member)).1
    dsimp only
    rw [List.take_append_of_le_length (Nat.le_of_lt bound)]
  · simp

omit [DecidableEq Thread] in
/-- The steps of a call change the deque and answer as the whole call does. -/
theorem follow_critical (thread : Thread) (call : Call TType) (queue : List TType) (given : List (Answer TType)) :
    follow ((calls : Calls Thread _ _ _).critical thread call ⟨none, false, given⟩) (queue, ⟨none, false, given⟩) =
      ((Session.step ⟨⟨queue⟩, [], []⟩ (thread, call)).shared.queue,
        ⟨none, false, given ++ [answerOf call ⟨queue⟩]⟩) := by
  cases call with
  | pushBack newElement => rfl
  | pushFront newElement => rfl
  | popBack =>
    rcases List.eq_nil_or_concat queue with rfl | ⟨rest, value, rfl⟩
    · rfl
    · simp [calls, tests, unlessThrown, leaves, answerOf, Session.step, Call.perform, popBack]
  | popFront => cases queue <;> rfl

/-- Nobody has got an answer yet. -/
def untouched : Store Thread (List TType) (Caller TType) := ⟨[], fun _ => ⟨none, false, []⟩⟩

theorem play_eq_session (schedule : List (Thread × Call TType)) :
    calls.play untouched schedule =
      ⟨(Session.play schedule).shared.queue, fun thread => ⟨none, false, part thread (answers schedule)⟩⟩ := by
  induction schedule using List.reverseRecOn with
  | nil => rfl
  | append_singleton schedule turn ih =>
    obtain ⟨thread, call⟩ := turn
    have made := follow_critical thread call (Session.play schedule).shared.queue (part thread (answers schedule))
    have shared : (Session.step (Session.play schedule) (thread, call)).shared =
        (Session.step ⟨(Session.play schedule).shared, [], []⟩ (thread, call)).shared := by
      unfold Session.step
      dsimp only
      split <;> rfl
    rw [play_snoc, ih, Session.play_snoc, shared, answers_snoc]
    refine congrArg₂ Store.mk (congrArg Prod.fst made) (funext fun other => ?_)
    by_cases same : other = thread
    · subst same
      rw [part_append, part_cons_own]
      exact (Function.update_self ..).trans (congrArg Prod.snd made)
    · rw [part_append, part_cons_other (Ne.symm same), part_nil, List.append_nil]
      exact Function.update_of_ne same ..

/-- However the steps are mixed, the threads come to an end, and the deque and
every thread's answers are then those of whole calls in some order. -/
theorem steps_refine_calls [Fintype Thread] (programs : Thread → List (Call TType)) :
    WellFounded (fun after before : State Thread (Call TType) (List TType) (Caller TType) =>
      CriticalSections.Step calls before after) ∧
    ∀ state, Relation.ReflTransGen (CriticalSections.Step calls) (.start untouched programs) state →
      (∀ next, ¬ CriticalSections.Step calls state next) →
        ∃ schedule, (∀ thread, part thread schedule = programs thread) ∧
          state.shared = (Session.play schedule).shared.queue ∧
          ∀ thread, (state.own thread).answers = part thread (answers schedule) := by
  refine ⟨terminates calls, fun state run stuck => ?_⟩
  obtain ⟨schedule, parts, shared, own⟩ := serialized run stuck
  rw [play_eq_session] at shared own
  exact ⟨schedule, parts, shared, fun thread => by rw [own]⟩

end ThreadSafeQueue

/-! ### `Logger::log` -/

namespace Logger

/-- A step under `_fileMutex`: the text of the log file. -/
abbrev FileStep := List Char × Unit → List Char × Unit

/-- `_logFile <<`, character by character. A stream that has failed or has no
file drops the text. -/
def inserts (logger : Logger) (text : List Char) : List FileStep :=
  if logger.logFile.fail ∨ ¬ logger.logFile.isOpen then []
  else text.map fun char => fun (contents, caller) => (contents ++ [char], caller)

/-- `Logger::log`. The level is looked at before the lock is taken. -/
def calls (logger : Logger) : Calls Thread LogCall (List Char) Unit where
  prepare _ := []
  locks call _ := decide (¬ call.level.value < logger.currentLevel.value)
  critical _ call _ := call.values.flatMap logger.inserts ++ logger.inserts ['\n']

/-- What the whole call adds to the file. -/
def added (logger : Logger) (call : LogCall) : List Char := ((logger.log call).map Prod.snd).getD []

theorem follow_inserts (logger : Logger) (text contents : List Char) :
    follow (logger.inserts text) (contents, ()) =
      (contents ++ if logger.logFile.fail ∨ ¬ logger.logFile.isOpen then [] else text, ()) := by
  unfold inserts
  split
  · rw [follow_nil, List.append_nil]
  · induction text generalizing contents with
    | nil => rw [List.map_nil, follow_nil, List.append_nil]
    | cons char text ih =>
      rw [List.map_cons, follow_cons, ih, List.append_assoc]
      rfl

theorem follow_values (logger : Logger) (values : List (List Char)) (contents : List Char) :
    follow (values.flatMap logger.inserts) (contents, ()) =
      (contents ++ if logger.logFile.fail ∨ ¬ logger.logFile.isOpen then [] else values.flatten, ()) := by
  induction values generalizing contents with
  | nil => simp
  | cons value values ih =>
    rw [List.flatMap_cons, follow_append, follow_inserts, ih]
    split <;> simp

theorem atomically_adds (logger : Logger) (store : Store Thread (List Char) Unit) (turn : Thread × LogCall) :
    (logger.calls.atomically store turn).shared = store.shared ++ logger.added turn.2 := by
  have whole : follow (turn.2.values.flatMap logger.inserts ++ logger.inserts ['\n']) (store.shared, ()) =
      (store.shared ++ if logger.logFile.fail ∨ ¬ logger.logFile.isOpen then [] else turn.2.record, ()) := by
    rw [follow_append, follow_values, follow_inserts]
    split <;> simp [LogCall.record]
  unfold Calls.atomically added log
  by_cases filtered : turn.2.level.value < logger.currentLevel.value
  · simp [calls, filtered, Nat.not_le.mpr filtered]
  · have passes := Nat.le_of_not_lt filtered
    cases opened : logger.logFile.opened <;> by_cases failed : logger.logFile.fail = true <;>
      simp [calls, filtered, passes, whole, Ofstream.isOpen, opened, failed]

theorem play_adds (logger : Logger) (contents : List Char) (schedule : List (Thread × LogCall)) :
    (logger.calls.play ⟨contents, fun _ => ()⟩ schedule).shared =
      contents ++ schedule.flatMap fun turn => logger.added turn.2 := by
  induction schedule using List.reverseRecOn with
  | nil => exact (List.append_nil _).symm
  | append_singleton schedule turn ih =>
    rw [play_snoc, atomically_adds, ih, List.flatMap_append, List.append_assoc, List.flatMap_singleton]

/-- However the insertions of the threads are mixed, the threads come to an end,
and the file has then got one whole record for each call whose level passes, in
some order that keeps the order of each thread. -/
theorem records_stay_whole [Fintype Thread] (logger : Logger) (contents : List Char)
    (programs : Thread → List LogCall) :
    WellFounded (fun after before : State Thread LogCall (List Char) Unit =>
      CriticalSections.Step logger.calls before after) ∧
    ∀ state, Relation.ReflTransGen (CriticalSections.Step logger.calls)
        (.start ⟨contents, fun _ => ()⟩ programs) state →
      (∀ next, ¬ CriticalSections.Step logger.calls state next) →
        ∃ schedule, (∀ thread, part thread schedule = programs thread) ∧
          state.shared = contents ++ schedule.flatMap fun turn => logger.added turn.2 := by
  refine ⟨terminates logger.calls, fun state run stuck => ?_⟩
  obtain ⟨schedule, parts, shared, _⟩ := serialized run stuck
  exact ⟨schedule, parts, shared.trans (play_adds logger contents schedule)⟩

end Logger

end Libftpp
