import Libftpp.ThreadSafeIOStream

/-! The logger's records on the console (`logger.cpp`). A record is built by eight
insertions into one stream that all threads share. Each insertion is atomic and
the record is not: the text goes out with whatever else is in the buffer when some
record ends. -/
namespace Libftpp
open Threads ThreadSafeIOStream

/-- `enum class LogLevel`. -/
inductive LogLevel where
  | DEBUG
  | INFO
  | WARNING
  | ERROR
  deriving DecidableEq

namespace LogLevel

def value : LogLevel → Nat
  | .DEBUG => 0
  | .INFO => 1
  | .WARNING => 2
  | .ERROR => 3

/-- `Logger::logLevelToString`. Its default is for values that no enumerator has. -/
def logLevelToString : LogLevel → List Char
  | .DEBUG => "DEBUG".toList
  | .INFO => "INFO".toList
  | .WARNING => "WARNING".toList
  | .ERROR => "ERROR".toList

end LogLevel

/-- `std::tm`, as far as it is printed. -/
structure Tm where
  tm_sec : Nat
  tm_min : Nat
  tm_hour : Nat
  tm_mday : Nat
  tm_mon : Nat
  tm_year : Int
  deriving DecidableEq

namespace Tm

/-- `%m`, `%d`, `%H`, `%M` and `%S`. -/
def twoDigits (number : Nat) : List Char :=
  if number < 10 then '0' :: Nat.toDigits 10 number else Nat.toDigits 10 number

/-- `%Y`. -/
def year : Int → List Char
  | .ofNat number => Nat.toDigits 10 number
  | .negSucc number => '-' :: Nat.toDigits 10 (number + 1)

/-- `Logger::getCurrentTime`, for the time that the clock shows. -/
def getCurrentTime (localTime : Tm) : List Char :=
  year (localTime.tm_year + 1900) ++ ['-'] ++ twoDigits (localTime.tm_mon + 1) ++ ['-'] ++ twoDigits localTime.tm_mday ++
    " | ".toList ++ twoDigits localTime.tm_hour ++ [':'] ++ twoDigits localTime.tm_min ++ [':'] ++
    twoDigits localTime.tm_sec

end Tm

/-- A call of `Logger::logConsole`, with the time it reads. -/
structure LogCall where
  level : LogLevel
  message : List Char
  localTime : Tm
  deriving DecidableEq

namespace LogCall

/-- The values that the call inserts. -/
def values (call : LogCall) : List (List Char) :=
  [['['], call.level.logLevelToString, [']'], ['['], call.localTime.getCurrentTime, [']', ' '], call.message]

/-- The eight insertions of the call. -/
def insertions (call : LogCall) : List Insertion := call.values.map Insertion.text ++ [Insertion.endl]

/-- `Logger::logConsole`. -/
def logConsole (currentLevel : LogLevel) (call : LogCall) : List Insertion :=
  if call.level.value < currentLevel.value then []
  else call.insertions

/-- The record of the call. -/
def record (call : LogCall) : List Char := call.values.flatten ++ ['\n']

end LogCall

/-- The console, and the `_writer` through which the logger writes to it. -/
structure LogConsole where
  writer : ThreadSafeIOStream
  cout : List Char

namespace LogConsole
variable {Thread : Type}

/-- An insertion into `_writer`. -/
def step (console : LogConsole) (insertion : Insertion) : LogConsole :=
  let (writer, written) := console.writer.insert insertion
  ⟨writer, console.cout ++ written⟩

/-- The insertions of all threads, each with the call that makes it. The writer
has no prefix. -/
def play (insertions : List (LogCall × Insertion)) : LogConsole :=
  insertions.foldl (fun console made => console.step made.2) ⟨⟨[], []⟩, []⟩

/-- What a thread does that makes these calls. -/
def program (currentLevel : LogLevel) (calls : List LogCall) : List (LogCall × Insertion) :=
  calls.flatMap fun call => (call.logConsole currentLevel).map fun insertion => (call, insertion)

/-- The calls that have been through their last insertion. -/
def completed (insertions : List (LogCall × Insertion)) : List LogCall :=
  insertions.filterMap fun made => if made.2 = .endl then some made.1 else none

/-- The console shows the records of the completed calls, one after the other and
each once. -/
def Unmixed (insertions : List (LogCall × Insertion)) : Prop :=
  ∃ order : List LogCall, order.Perm (completed insertions) ∧ (play insertions).cout = order.flatMap LogCall.record

/-! ### Texts without newlines -/

theorem unbroken_digits {digits : Nat} : '\n' ∉ Nat.toDigits 10 digits :=
  fun member => absurd (Nat.isDigit_of_mem_toDigits (by decide) (by decide) member) (by decide)

theorem unbroken_twoDigits (number : Nat) : '\n' ∉ Tm.twoDigits number := by
  unfold Tm.twoDigits
  split
  · exact List.not_mem_cons_of_ne_of_not_mem (by decide) unbroken_digits
  · exact unbroken_digits

theorem unbroken_year (number : Int) : '\n' ∉ Tm.year number := by
  cases number with
  | ofNat number => exact unbroken_digits
  | negSucc number => exact List.not_mem_cons_of_ne_of_not_mem (by decide) unbroken_digits

theorem unbroken_time (localTime : Tm) : '\n' ∉ localTime.getCurrentTime := by
  simp [Tm.getCurrentTime, unbroken_year, unbroken_twoDigits]

theorem unbroken_level (level : LogLevel) : '\n' ∉ level.logLevelToString := by
  cases level <;> decide

theorem unbroken_values {call : LogCall} (plain : '\n' ∉ call.message) : ∀ value ∈ call.values, '\n' ∉ value := by
  intro value member
  simp only [LogCall.values, List.mem_cons, List.not_mem_nil, or_false] at member
  rcases member with rfl | rfl | rfl | rfl | rfl | rfl | rfl
  · decide
  · exact unbroken_level call.level
  · decide
  · decide
  · exact unbroken_time call.localTime
  · decide
  · exact plain

/-! ### One call after the other -/

/-- Insertions of values without newlines are held back. -/
theorem step_values {values : List (List Char)} (unbroken : ∀ value ∈ values, '\n' ∉ value) (buffer cout : List Char)
    (held : '\n' ∉ buffer) :
    (values.map Insertion.text).foldl step ⟨⟨buffer, []⟩, cout⟩ = ⟨⟨buffer ++ values.flatten, []⟩, cout⟩ := by
  induction values generalizing buffer with
  | nil => simp
  | cons value values ih =>
    have plain := unbroken value (List.mem_cons_self ..)
    have line : '\n' ∉ buffer ++ value := fun member => (List.mem_append.mp member).elim held plain
    have first : step ⟨⟨buffer, []⟩, cout⟩ (.text value) = ⟨⟨buffer ++ value, []⟩, cout⟩ := by
      simp [step, ThreadSafeIOStream.insert, insertText, held, plain]
    rw [List.map_cons, List.foldl_cons, first,
      ih (fun other member => unbroken other (List.mem_cons_of_mem _ member)) _ line, List.append_assoc,
      List.flatten_cons]

/-- A call puts out its record, behind whatever was in the buffer. -/
theorem step_call {call : LogCall} (plain : '\n' ∉ call.message) {buffer : List Char} (cout : List Char)
    (held : '\n' ∉ buffer) :
    call.insertions.foldl step ⟨⟨buffer, []⟩, cout⟩ = ⟨⟨[], []⟩, cout ++ (buffer ++ call.record)⟩ := by
  rw [LogCall.insertions, List.foldl_append, step_values (unbroken_values plain) buffer cout held]
  simp [step, ThreadSafeIOStream.insert, insertEndl, flushBuffer, LogCall.record, LogCall.values]

theorem play_eq (insertions : List (LogCall × Insertion)) :
    play insertions = (insertions.map Prod.snd).foldl step ⟨⟨[], []⟩, []⟩ := by
  rw [play, List.foldl_map]

/-- What a call inserts, each insertion with the call. -/
def made (call : LogCall) : List (LogCall × Insertion) :=
  call.insertions.map fun insertion => (call, insertion)

theorem made_insertions (call : LogCall) : (made call).map Prod.snd = call.insertions := by
  rw [made, List.map_map]
  exact List.map_id _

theorem program_eq {currentLevel : LogLevel} {calls : List LogCall}
    (passes : ∀ call ∈ calls, currentLevel.value ≤ call.level.value) :
    program currentLevel calls = calls.flatMap made := by
  apply List.flatMap_congr
  intro call member
  rw [LogCall.logConsole, if_neg (Nat.not_lt.mpr (passes call member)), made]

theorem completed_append (first rest : List (LogCall × Insertion)) :
    completed (first ++ rest) = completed first ++ completed rest := List.filterMap_append

theorem completed_values (call : LogCall) (values : List (List Char)) :
    completed ((values.map Insertion.text).map fun insertion => (call, insertion)) = [] := by
  rw [completed, List.map_map]
  exact List.filterMap_eq_nil_iff.mpr fun insertion member => by
    obtain ⟨value, _, rfl⟩ := List.mem_map.mp member
    rfl

theorem completed_made (call : LogCall) : completed (made call) = [call] := by
  rw [made, LogCall.insertions, List.map_append, completed_append, completed_values]
  rfl

theorem completed_all (calls : List LogCall) : completed (calls.flatMap made) = calls := by
  induction calls with
  | nil => rfl
  | cons call calls ih =>
    rw [List.flatMap_cons, completed_append, completed_made, ih]
    rfl

theorem play_all {calls : List LogCall} (plain : ∀ call ∈ calls, '\n' ∉ call.message) :
    play (calls.flatMap made) = ⟨⟨[], []⟩, calls.flatMap LogCall.record⟩ := by
  induction calls using List.reverseRecOn with
  | nil => rfl
  | append_singleton calls call ih =>
    have before := ih fun other member => plain other (List.mem_append_left _ member)
    rw [play_eq] at before
    rw [play_eq, List.flatMap_append, List.map_append, List.foldl_append, before, List.flatMap_singleton,
      made_insertions,
      step_call (plain call (List.mem_append_right _ (List.mem_singleton.mpr rfl))) _ List.not_mem_nil,
      List.flatMap_append, List.flatMap_singleton, List.nil_append]

/-- Calls of any threads that do not overlap leave their records on the console
complete and in their order, whatever the last call has inserted so far. -/
theorem separate_calls_complete {calls : List LogCall} {call : LogCall} {begun : List (List Char)}
    (plain : ∀ other ∈ call :: calls, '\n' ∉ other.message) (part : begun <+: call.values) :
    Unmixed (calls.flatMap made ++ (begun.map Insertion.text).map fun insertion => (call, insertion)) := by
  refine ⟨calls, ?_, ?_⟩
  · rw [completed_append, completed_all, completed_values, List.append_nil]
  · have before := play_all fun other member => plain other (List.mem_cons_of_mem _ member)
    have held := unbroken_values (plain call (List.mem_cons_self ..))
    have values : (((begun.map Insertion.text).map fun insertion => (call, insertion)).map Prod.snd) =
        begun.map Insertion.text := by
      rw [List.map_map]
      exact List.map_id _
    rw [play_eq] at before
    rw [play_eq, List.map_append, List.foldl_append, before, values,
      step_values (fun value member => held value (part.subset member)) _ _ List.not_mem_nil]

/-- What a thread has done so far are some whole calls and the beginning of one. -/
theorem exists_separate {calls : List LogCall} (plain : ∀ call ∈ calls, '\n' ∉ call.message)
    (part : insertions <+: calls.flatMap made) :
    ∃ (done : List LogCall) (call : LogCall) (begun : List (List Char)),
      (∀ other ∈ call :: done, '\n' ∉ other.message) ∧ begun <+: call.values ∧
        insertions = done.flatMap made ++ (begun.map Insertion.text).map fun insertion => (call, insertion) := by
  induction calls generalizing insertions with
  | nil =>
    refine ⟨[], ⟨.DEBUG, [], ⟨0, 0, 0, 0, 0, 0⟩⟩, [], ?_, List.nil_prefix, List.prefix_nil.mp part⟩
    intro other member
    rw [List.mem_singleton.mp member]
    exact List.not_mem_nil
  | cons call calls ih =>
    have rest : ∀ other ∈ calls, '\n' ∉ other.message := fun other member => plain other (List.mem_cons_of_mem _ member)
    have own := plain call (List.mem_cons_self ..)
    rw [List.flatMap_cons] at part
    rcases List.prefix_or_prefix_of_prefix part (List.prefix_append ..) with short | ⟨more, rfl⟩
    · rw [made, LogCall.insertions, List.map_append, List.map_singleton] at short
      rcases List.prefix_concat_iff.mp short with whole | inside
      · refine ⟨[call], call, [], ?_, List.nil_prefix, ?_⟩
        · intro other member
          simp only [List.mem_cons, List.not_mem_nil, or_false, or_self] at member
          rw [member]
          exact own
        · rw [List.flatMap_singleton, List.map_nil, List.map_nil, List.append_nil, whole, made, LogCall.insertions,
            List.map_append, List.map_singleton]
      · rw [List.map_map] at inside
        obtain ⟨begun, front, rfl⟩ := List.prefix_map_iff.mp inside
        refine ⟨[], call, begun, ?_, front, ?_⟩
        · intro other member
          rw [List.mem_singleton.mp member]
          exact own
        · rw [List.map_map]
          rfl
    · obtain ⟨done, last, begun, unbroken, front, rfl⟩ := ih rest ((List.prefix_append_right_inj _).mp part)
      refine ⟨call :: done, last, begun, ?_, front, ?_⟩
      · intro other member
        rcases List.mem_cons.mp member with rfl | member
        · exact unbroken other (List.mem_cons_self ..)
        rcases List.mem_cons.mp member with rfl | member
        · exact own
        · exact unbroken other (List.mem_cons_of_mem _ member)
      · rw [List.flatMap_cons, List.append_assoc]

/-! ### Calls of several threads -/

/-- Another call begins after the first bracket of this one. -/
def overlap (first second : Thread) (one other : LogCall) : List (Thread × LogCall × Insertion) :=
  (first, one, .text ['[']) :: turns second (made other)

theorem overlap_mixed {first second : Thread} {one other : LogCall} (plain : '\n' ∉ other.message) :
    ¬ Unmixed ((overlap first second one other).map Prod.snd) := by
  rintro ⟨order, permuted, shown⟩
  have insertions : (overlap first second one other).map Prod.snd = (one, .text ['[']) :: made other := by
    rw [overlap, List.map_cons, turns, List.map_map]
    exact congrArg _ (List.map_id _)
  have bracket : step ⟨⟨[], []⟩, []⟩ (.text ['[']) = ⟨⟨['['], []⟩, []⟩ := rfl
  have finished : completed ((one, .text ['[']) :: made other) = [other] := completed_made other
  rw [insertions, finished, List.perm_singleton] at permuted
  rw [insertions, play_eq, List.map_cons, List.foldl_cons, made_insertions, bracket, step_call plain [] (by decide),
    permuted, List.flatMap_singleton] at shown
  have length := congrArg List.length shown
  simp at length

theorem overlap_part [DecidableEq Thread] {calls : Thread → List LogCall} {first second : Thread}
    (apart : first ≠ second) (shapeOne : calls first = one :: ones) (shapeOther : calls second = other :: others)
    (thread : Thread) : part thread (overlap first second one other) <+: (calls thread).flatMap made := by
  rw [overlap]
  by_cases here : thread = first
  · subst here
    rw [part_cons_own, part_turns_other apart.symm, shapeOne, List.flatMap_cons]
    exact ⟨_, rfl⟩
  rw [part_cons_other (Ne.symm here)]
  by_cases there : thread = second
  · subst there
    rw [part_turns_own, shapeOther, List.flatMap_cons]
    exact List.prefix_append ..
  · rw [part_turns_other (Ne.symm there)]
    exact List.nil_prefix

/-- Where only one thread logs, its calls are made one after the other. -/
theorem unmixed_of_alone [DecidableEq Thread] {calls : Thread → List LogCall}
    (plain : ∀ thread, ∀ call ∈ calls thread, '\n' ∉ call.message)
    (programs : ∀ thread, part thread schedule <+: (calls thread).flatMap made)
    (single : ∀ first second, first ≠ second → calls first = [] ∨ calls second = []) :
    Unmixed (schedule.map Prod.snd) := by
  have busy (turn : Thread × LogCall × Insertion) (member : turn ∈ schedule) : calls turn.1 ≠ [] := by
    intro idle
    have listed := (programs turn.1).subset (mem_part member)
    rw [idle] at listed
    cases listed
  cases shape : schedule with
  | nil => exact ⟨[], .refl _, rfl⟩
  | cons turn rest =>
    have first : turn ∈ schedule := shape ▸ List.mem_cons_self ..
    have alone : ∀ other ∈ schedule, other.1 = turn.1 := by
      intro other member
      by_contra apart
      rcases single other.1 turn.1 apart with idle | idle
      · exact busy other member idle
      · exact busy turn first idle
    obtain ⟨done, call, begun, unbroken, front, whole⟩ := exists_separate (plain turn.1) (programs turn.1)
    rw [← shape, ← part_alone alone, whole]
    exact separate_calls_complete unbroken front

/-- In every interleaving the console shows complete records, one for each call,
exactly when no two threads log. -/
theorem records_unmixed_iff [DecidableEq Thread] (currentLevel : LogLevel) (calls : Thread → List LogCall)
    (plain : ∀ thread, ∀ call ∈ calls thread, '\n' ∉ call.message)
    (passes : ∀ thread, ∀ call ∈ calls thread, currentLevel.value ≤ call.level.value) :
    (∀ schedule : List (Thread × LogCall × Insertion),
      Interleaves (fun thread => program currentLevel (calls thread)) schedule → Unmixed (schedule.map Prod.snd)) ↔
      ∀ first second, first ≠ second → calls first = [] ∨ calls second = [] := by
  constructor
  · intro unmixed first second apart
    by_contra both
    rw [not_or] at both
    obtain ⟨one, ones, shapeOne⟩ := List.exists_cons_of_ne_nil both.1
    obtain ⟨other, others, shapeOther⟩ := List.exists_cons_of_ne_nil both.2
    apply overlap_mixed (plain second other (shapeOther ▸ List.mem_cons_self ..))
    apply unmixed (overlap first second one other)
    intro thread
    dsimp only
    rw [program_eq (passes thread)]
    exact overlap_part apart shapeOne shapeOther thread
  · intro single schedule interleaves
    apply unmixed_of_alone plain _ single
    intro thread
    have whole := interleaves thread
    dsimp only at whole
    rwa [program_eq (passes thread)] at whole

/-- A call at noon. -/
def noon : LogCall := ⟨.INFO, ['a'], ⟨0, 0, 12, 1, 4, 125⟩⟩

/-- One thread logs two messages, and the other is silent. -/
def oneLogs (thread : Bool) : List LogCall := if thread then [] else [noon, { noon with level := .ERROR }]

theorem records_unmixed_beside_silence :
    Unmixed ((turns false (program .DEBUG (oneLogs false))).map Prod.snd) := by
  apply (records_unmixed_iff .DEBUG oneLogs (by decide) (by decide)).mpr
  · intro first second apart
    cases first with
    | true => exact Or.inl rfl
    | false =>
      cases second with
      | true => exact Or.inr rfl
      | false => exact absurd rfl apart
  · intro thread
    cases thread with
    | false =>
      have all := part_turns_own false (program .DEBUG (oneLogs false))
      exact all.symm ▸ List.prefix_rfl
    | true =>
      have none := @part_turns_other _ _ _ true false (by decide) (program .DEBUG (oneLogs false))
      exact none.symm ▸ List.nil_prefix

theorem noon_plain (thread : Thread) : ∀ call ∈ (fun _ : Thread => [noon]) thread, '\n' ∉ call.message := by
  intro call member
  rw [List.mem_singleton.mp member]
  decide

theorem noon_passes (thread : Thread) :
    ∀ call ∈ (fun _ : Thread => [noon]) thread, LogLevel.DEBUG.value ≤ call.level.value := by
  intro call member
  rw [List.mem_singleton.mp member]
  decide

/-- Two threads that log one message each: the second begins after the first bracket
of the first. -/
theorem records_of_overlap_mixed :
    ¬ ∀ (calls : Bool → List LogCall) (schedule : List (Bool × LogCall × Insertion)),
      (∀ thread, ∀ call ∈ calls thread, '\n' ∉ call.message) →
      (∀ thread, ∀ call ∈ calls thread, LogLevel.DEBUG.value ≤ call.level.value) →
      Interleaves (fun thread => program .DEBUG (calls thread)) schedule → Unmixed (schedule.map Prod.snd) := by
  intro holds
  have plain : '\n' ∉ noon.message := by decide
  apply @overlap_mixed Bool false true noon noon plain
  apply holds (fun _ => [noon]) _ noon_plain noon_passes
  intro thread
  cases thread with
  | false => exact ⟨_, rfl⟩
  | true => exact List.prefix_rfl

end LogConsole
end Libftpp
