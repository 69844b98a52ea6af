import Mathlib.Data.List.Induction
import Libftpp.Program

/-! `Chronometre` (`chronometre.hpp`, `chronometre.cpp`). The readings of `start`
and `end` go into one vector, and only their number tells which is which. A
stopwatch that keeps its intervals is what the calls are about; as long as every
call finds the reading it takes for granted at the end of the vector, the two
agree. -/
namespace Libftpp
open Program

/-- `std::logic_error`. -/
structure LogicError where
  what : String
  deriving DecidableEq

/-- `Chronometre`, with the readings in nanoseconds. -/
structure Chronometre where
  timestamps : List Int
  now : Int
  deriving DecidableEq

/-- A call, with the reading of the clock if it takes one. -/
inductive ChronometreCall where
  | start (reading : Int)
  | end_ (reading : Int)
  | popLastChrono
  deriving DecidableEq

namespace Chronometre

/-- `Chronometre()`. -/
def empty : Chronometre := ⟨[], 0⟩

/-- `createTimestamp`. -/
def createTimestamp (reading : Int) : Program LogicError Chronometre Unit := do
  modify fun chrono => { chrono with now := reading }
  modify fun chrono => { chrono with timestamps := chrono.timestamps ++ [chrono.now] }

/-- `start`. -/
def start (reading : Int) : Program LogicError Chronometre Unit := createTimestamp reading

/-- `end`. -/
def end_ (reading : Int) : Program LogicError Chronometre Unit := do
  let chrono ← get
  if chrono.timestamps.length = 0 then raise ⟨"Chronometre::end(): start() must be called before end()"⟩
  else createTimestamp reading

/-- `popLastChrono`. -/
def popLastChrono : Program LogicError Chronometre Unit := do
  let chrono ← get
  if chrono.timestamps.length > 1 then set { chrono with timestamps := chrono.timestamps.dropLast.dropLast }

/-- `getTimeNanoseconds`. -/
def getTimeNanoseconds : Program LogicError Chronometre Int := do
  let chrono ← get
  if chrono.timestamps.length = 0 ∨ chrono.timestamps.length % 2 ≠ 0 then
    raise ⟨"Chronometre::getTime(): start() and end() must be called in pairs"⟩
  else
    match chrono.timestamps.getLast?, chrono.timestamps[chrono.timestamps.length - 2]? with
    | some last, some before => pure (last - before)
    | _, _ => undefinedBehaviour

def perform : ChronometreCall → Program LogicError Chronometre Unit
  | .start reading => start reading
  | .end_ reading => end_ reading
  | .popLastChrono => popLastChrono

/-- A call whose exception the caller catches. -/
def step (chrono : Chronometre) (call : ChronometreCall) : Chronometre :=
  match (perform call).run chrono with
  | .ok _ after => after
  | .error _ after => after

/-- Calls from the beginning. -/
def play (calls : List ChronometreCall) : Chronometre := calls.foldl step empty

end Chronometre

/-- From the reading of a `start` to the reading of the `end` that closed it. -/
structure Interval where
  start : Int
  finish : Int
  deriving DecidableEq

/-- What a chronometre is for: intervals, and a `start` that is not closed. -/
structure Stopwatch where
  completed : List Interval
  opened : Option Int
  deriving DecidableEq

namespace Stopwatch

/-- An `end` closes the `start` that is open, and a pop takes away the interval
that was completed last. -/
def step (watch : Stopwatch) : ChronometreCall → Stopwatch
  | .start reading => { watch with opened := some reading }
  | .end_ reading =>
    match watch.opened with
    | some start => ⟨watch.completed ++ [⟨start, reading⟩], none⟩
    | none => watch
  | .popLastChrono => { watch with completed := watch.completed.dropLast }

/-- Calls from the beginning. -/
def play (calls : List ChronometreCall) : Stopwatch := calls.foldl step ⟨[], none⟩

end Stopwatch

namespace Chronometre

/-- The call finds the vector as it needs it: for `start` nothing is open, for
`end` a `start` is open or the readings are in pairs, and for a pop they are in
pairs or there is only one. -/
def Finds (chrono : Chronometre) (watch : Stopwatch) : ChronometreCall → Prop
  | .start _ => chrono.timestamps.length % 2 = 0
  | .end_ _ => watch.opened.isSome ∨ chrono.timestamps.length % 2 = 0
  | .popLastChrono => chrono.timestamps.length % 2 = 0 ∨ chrono.timestamps.length = 1

/-- All calls find the vector so. -/
def Paired (calls : List ChronometreCall) : Prop :=
  ∀ done call rest, calls = done ++ call :: rest → Finds (play done) (Stopwatch.play done) call

/-- The time that is returned is that of the interval completed last. -/
def Reports (chrono : Chronometre) (watch : Stopwatch) : Prop :=
  ∀ time after, getTimeNanoseconds.run chrono = .ok time after →
    ∃ interval, watch.completed.getLast? = some interval ∧ time = interval.finish - interval.start

/-- A pop takes the two readings of the interval completed last, or nothing. -/
def Removes (chrono : Chronometre) (watch : Stopwatch) : Prop :=
  chrono.step .popLastChrono = chrono ∨
    ∃ interval, watch.completed.getLast? = some interval ∧
      chrono.timestamps = (chrono.step .popLastChrono).timestamps ++ [interval.start, interval.finish]

/-- The readings of the intervals. -/
def readings (completed : List Interval) : List Int :=
  completed.flatMap fun interval => [interval.start, interval.finish]

/-- The vector holds the intervals, and then the open `start`, or an `end` too much. -/
def Shows (watch : Stopwatch) (chrono : Chronometre) : Prop :=
  ∃ surplus, chrono.timestamps = readings watch.completed ++ watch.opened.toList ++ surplus ∧
    (surplus = [] ∨ watch.opened = none ∧ watch.completed ≠ [] ∧ surplus.length = 1)

/-! ### The calls -/

@[simp] theorem readings_nil : readings [] = [] := rfl

@[simp] theorem readings_concat (completed : List Interval) (interval : Interval) :
    readings (completed ++ [interval]) = readings completed ++ [interval.start, interval.finish] := by
  simp [readings]

theorem readings_length (completed : List Interval) : (readings completed).length = 2 * completed.length := by
  induction completed with
  | nil => rfl
  | cons interval completed ih =>
    simp only [readings, List.flatMap_cons, List.length_append, List.length_cons, List.length_nil] at ih ⊢
    omega

@[simp] theorem step_start (chrono : Chronometre) (reading : Int) :
    chrono.step (.start reading) = ⟨chrono.timestamps ++ [reading], reading⟩ := rfl

theorem step_end (chrono : Chronometre) (reading : Int) :
    chrono.step (.end_ reading) =
      if chrono.timestamps = [] then chrono else ⟨chrono.timestamps ++ [reading], reading⟩ := by
  cases chrono with
  | mk timestamps now => cases timestamps <;> rfl

theorem step_pop (chrono : Chronometre) :
    chrono.step .popLastChrono =
      if chrono.timestamps.length > 1 then { chrono with timestamps := chrono.timestamps.dropLast.dropLast }
      else chrono := by
  by_cases more : chrono.timestamps.length > 1
  · simp [step, perform, popLastChrono, more]
  · simp [step, perform, popLastChrono, more]

theorem dropLast_readings (completed : List Interval) :
    (readings completed).dropLast.dropLast = readings completed.dropLast := by
  rcases completed.eq_nil_or_concat with rfl | ⟨others, interval, rfl⟩
  · rfl
  · simp

theorem showingempty : Shows ⟨[], none⟩ empty := ⟨[], rfl, Or.inl rfl⟩

/-- Readings in pairs are those of the intervals. -/
theorem Shows.paired {watch : Stopwatch} {chrono : Chronometre} (showing : Shows watch chrono)
    (even : chrono.timestamps.length % 2 = 0) :
    watch.opened = none ∧ chrono.timestamps = readings watch.completed := by
  obtain ⟨surplus, shape, rest⟩ := showing
  have total := congrArg List.length shape
  simp only [List.length_append, readings_length] at total
  rcases rest with rfl | ⟨closed, _, single⟩
  · cases opened : watch.opened with
    | none => simp [shape, opened]
    | some start =>
      simp [opened] at total
      omega
  · simp [closed, single] at total
    omega

/-- A single reading is that of a `start`. -/
theorem Shows.single {watch : Stopwatch} {chrono : Chronometre} (showing : Shows watch chrono)
    (single : chrono.timestamps.length = 1) : watch.completed = [] ∧ chrono.timestamps = watch.opened.toList := by
  obtain ⟨surplus, shape, rest⟩ := showing
  have total := congrArg List.length shape
  simp only [List.length_append, readings_length] at total
  have nothing : watch.completed = [] := List.eq_nil_of_length_eq_zero (by omega)
  rcases rest with rfl | ⟨_, more, _⟩
  · exact ⟨nothing, by simp [shape, nothing]⟩
  · exact absurd nothing more

theorem step_shows {watch : Stopwatch} {chrono : Chronometre} (showing : Shows watch chrono) {call : ChronometreCall}
    (finds : Finds chrono watch call) : Shows (watch.step call) (chrono.step call) := by
  cases call with
  | start reading =>
    obtain ⟨closed, shape⟩ := showing.paired finds
    exact ⟨[], by simp [Stopwatch.step, shape], Or.inl rfl⟩
  | end_ reading =>
    cases opened : watch.opened with
    | some start =>
      obtain ⟨surplus, shape, rfl | ⟨closed, _⟩⟩ := showing
      · exact ⟨[], by simp [Stopwatch.step, step_end, shape, opened], Or.inl rfl⟩
      · simp [opened] at closed
    | none =>
      have even : chrono.timestamps.length % 2 = 0 := by simpa [Finds, opened] using finds
      obtain ⟨_, shape⟩ := showing.paired even
      simp only [Stopwatch.step, opened, step_end]
      split
      · exact showing
      · rename_i nonempty
        have several : watch.completed ≠ [] := by
          rintro nothing
          simp [shape, nothing] at nonempty
        exact ⟨[reading], by simp [shape, opened], Or.inr ⟨opened, several, rfl⟩⟩
  | popLastChrono =>
    rcases finds with even | single
    · obtain ⟨closed, shape⟩ := showing.paired even
      have total := readings_length watch.completed
      rw [← shape] at total
      rw [step_pop]
      split
      · exact ⟨[], by simp [Stopwatch.step, shape, closed, dropLast_readings], Or.inl rfl⟩
      · have nothing : watch.completed = [] := List.eq_nil_of_length_eq_zero (by omega)
        exact ⟨[], by simp [Stopwatch.step, shape, closed, nothing], Or.inl rfl⟩
    · obtain ⟨nothing, shape⟩ := showing.single single
      rw [step_pop, if_neg (by omega)]
      exact ⟨[], by simp [Stopwatch.step, shape, nothing], Or.inl rfl⟩

/-- The chronometre and the stopwatch agree in a run of such calls. -/
theorem play_shows {calls : List ChronometreCall} (paired : Paired calls) :
    Shows (Stopwatch.play calls) (play calls) := by
  induction calls using List.reverseRecOn with
  | nil => exact showingempty
  | append_singleton done call ih =>
    have earlier : Paired done := fun before next rest split =>
      paired before next (rest ++ [call]) (by simp [split])
    have finds := paired done call [] rfl
    simpa [play, Stopwatch.play] using step_shows (ih earlier) finds

theorem Shows.reports {watch : Stopwatch} {chrono : Chronometre} (showing : Shows watch chrono) :
    Reports chrono watch := by
  intro time after ran
  simp only [getTimeNanoseconds, EStateM.run_bind, EStateM.run_get, run_ite] at ran
  split at ran
  · cases ran
  · rename_i nonempty
    obtain ⟨_, shape⟩ := showing.paired (by omega)
    rcases watch.completed.eq_nil_or_concat with nothing | ⟨others, interval, last⟩
    · simp [shape, nothing] at nonempty
    · refine ⟨interval, by simp [last], ?_⟩
      simp [shape, last] at ran
      exact ran.1.symm

theorem Shows.removes {watch : Stopwatch} {chrono : Chronometre} (showing : Shows watch chrono)
    (finds : Finds chrono watch .popLastChrono) : Removes chrono watch := by
  unfold Removes
  rw [step_pop]
  split
  · rename_i several
    have even : chrono.timestamps.length % 2 = 0 := finds.resolve_right (by omega)
    obtain ⟨_, shape⟩ := showing.paired even
    rcases watch.completed.eq_nil_or_concat with nothing | ⟨others, interval, last⟩
    · simp [shape, nothing] at several
    · exact Or.inr ⟨interval, by simp [last], by simp [shape, last]⟩
  · exact Or.inl rfl

/-- In a run whose calls find the vector as they need it, the chronometre
reports and removes intervals. -/
theorem reports_intervals {calls : List ChronometreCall} (paired : Paired calls) :
    ∀ done rest, calls = done ++ rest → Reports (play done) (Stopwatch.play done) ∧
      (rest.head? = some .popLastChrono → Removes (play done) (Stopwatch.play done)) := by
  intro done rest split
  have earlier : Paired done := fun before call rest' cut => paired before call (rest' ++ rest) (by simp [split, cut])
  refine ⟨(play_shows earlier).reports, fun pops => ?_⟩
  obtain ⟨later, rfl⟩ := List.head?_eq_some_iff.mp pops
  exact (play_shows earlier).removes (paired done .popLastChrono later split)

theorem paired_nil : Paired [] := by
  intro done call rest split
  simp at split

theorem paired_concat {done : List ChronometreCall} (paired : Paired done)
    (finds : Finds (play done) (Stopwatch.play done) call) : Paired (done ++ [call]) := by
  intro before next rest split
  rcases rest.eq_nil_or_concat with rfl | ⟨others, last, rfl⟩
  · obtain ⟨rfl, same⟩ := List.append_inj' split rfl
    cases same
    exact finds
  · have cut : done ++ [call] = (before ++ next :: others) ++ [last] := by simp [split]
    exact paired before next others (List.append_inj' cut rfl).1

/-- Two intervals are completed, and the second is reported and then taken away. -/
theorem reports_second_interval :
    Reports (play [.start 0, .end_ 5, .start 7, .end_ 9]) ⟨[⟨0, 5⟩, ⟨7, 9⟩], none⟩ ∧
      Removes (play [.start 0, .end_ 5, .start 7, .end_ 9]) ⟨[⟨0, 5⟩, ⟨7, 9⟩], none⟩ := by
  have started : Paired [.start 0] := paired_concat paired_nil rfl
  have ended : Paired [.start 0, .end_ 5] := paired_concat started (Or.inl rfl)
  have restarted : Paired [.start 0, .end_ 5, .start 7] := paired_concat ended rfl
  have completed : Paired [.start 0, .end_ 5, .start 7, .end_ 9] := paired_concat restarted (Or.inl rfl)
  have popped : Paired [.start 0, .end_ 5, .start 7, .end_ 9, .popLastChrono] := paired_concat completed (Or.inl rfl)
  obtain ⟨reports, removes⟩ := reports_intervals popped [.start 0, .end_ 5, .start 7, .end_ 9] [.popLastChrono] rfl
  exact ⟨reports, removes rfl⟩

/-- The time between two starts, and a pop that leaves half an interval. -/
theorem reports_between_starts :
    ¬ Reports (play [.start 0, .start 5]) (Stopwatch.play [.start 0, .start 5]) ∧
      ¬ Removes (play [.start 0, .end_ 1, .start 2]) (Stopwatch.play [.start 0, .end_ 1, .start 2]) := by
  constructor
  · intro reports
    obtain ⟨interval, completed, _⟩ := reports 5 ⟨[0, 5], 5⟩ rfl
    cases completed
  · rintro (same | ⟨interval, completed, removed⟩)
    · exact absurd same (by decide)
    · cases completed
      exact absurd removed (by decide)

end Chronometre
end Libftpp
