import Libftpp.DataBuffer
import Libftpp.Logger

/-! The logger's file (`logger.cpp`). `setOutputFile` takes the new name over
first, then looks at the directory, and closes the old file before it opens the
new one: an exception finds some of these steps done. -/
namespace Libftpp
open Program

/-- `std::ofstream`: the path of the file that is open, and `fail()`. -/
structure Ofstream where
  opened : Option (List Char)
  fail : Bool
  deriving DecidableEq

namespace Ofstream

/-- `is_open()`. -/
def isOpen (stream : Ofstream) : Bool := stream.opened.isSome

/-- `close()`. If it fails it sets a flag that the `open` behind it overwrites. -/
def close (stream : Ofstream) : Ofstream := { stream with opened := none }

/-- `open(path, std::ios::out | std::ios::app)`, on a stream that is closed. -/
def openAt (stream : Ofstream) (path : List Char) (succeeds : Bool) : Ofstream :=
  if succeeds then ⟨some path, false⟩ else { stream with fail := true }

end Ofstream

/-- The answers of the system during a call: an `errno` where a function fails,
and for `stat` whether the path is a directory. -/
structure Environment where
  getcwd : Except Nat (List Char)
  localTime : Tm
  stat : List Char → Option Bool
  mkdir : List Char → Except Nat Unit
  opens : List Char → Bool

/-- `EEXIST`. -/
def EEXIST : Nat := 17

/-- `Logger`, with what its file needs. -/
@[ext] structure Logger where
  currentLevel : LogLevel
  logFilename : List Char
  outputFilePath : List Char
  logFile : Ofstream
  deriving DecidableEq

namespace Logger

/-- `Logger::getOutputPathFile`. -/
def getOutputPathFile (logger : Logger) : List Char := logger.outputFilePath ++ logger.logFilename ++ ".log".toList

/-- `Logger::setLogLevel`. -/
def setLogLevel (logger : Logger) (level : LogLevel) : Logger := { logger with currentLevel := level }

/-- `Logger::log`: the file and what is appended to it. A stream that has failed
or has no file drops the text. -/
def log (logger : Logger) (call : LogCall) : Option (List Char × List Char) :=
  if call.level.value < logger.currentLevel.value then none
  else if logger.logFile.fail then none
  else logger.logFile.opened.map fun path => (path, call.record)

/-- `dirPath` in `setOutputFile`. -/
def dirPath (outputFilePath : List Char) : List Char :=
  if outputFilePath.getLast? = some '/' then outputFilePath.dropLast else outputFilePath

/-- The name for the file: without one, the time. -/
def chosenName (environment : Environment) (filename : List Char) : List Char :=
  if filename = [] then environment.localTime.getCurrentTime else filename

/-- The tests of the directory in `setOutputFile`. -/
def ensureDirectory (environment : Environment) (dirPath : List Char) : Program Exn Logger Unit :=
  match environment.stat dirPath with
  | none =>
    match environment.mkdir dirPath with
    | .error errno =>
      if errno ≠ EEXIST then raise (.runtimeError ("Could not create log directory: " ++ toString errno)) else pure ()
    | .ok () => pure ()
  | some isDirectory =>
    if isDirectory then pure () else raise (.runtimeError "Log path exists but is not a directory")

/-- `Logger::setOutputFile`. -/
def setOutputFile (environment : Environment) (filename : List Char) : Program Exn Logger Unit :=
  match environment.getcwd with
  | .error errno =>
    raise (.runtimeError ("Current path for Output file could not be determined try to " ++
      "increase filename buffer size" ++ toString errno))
  | .ok buffer => do
    modify fun logger => { logger with logFilename := chosenName environment filename }
    modify fun logger =>
      if logger.outputFilePath = [] then { logger with outputFilePath := buffer ++ "/logs/".toList } else logger
    let logger ← get
    ensureDirectory environment (dirPath logger.outputFilePath)
    modify fun logger => { logger with logFile := logger.logFile.close }
    modify fun logger =>
      let path := logger.outputFilePath ++ logger.logFilename ++ ".log".toList
      { logger with logFile := logger.logFile.openAt path (environment.opens path) }
    let logger ← get
    if logger.logFile.isOpen then pure ()
    else raise (.runtimeError ("Could not open log file: " ++ String.ofList logger.logFilename ++ ".log"))

/-- The constructors, `Logger()` with an empty name and `DEBUG`. There is no
logger if `setOutputFile` throws. -/
def construct (environment : Environment) (outputfile : List Char) (level : LogLevel) : Option Logger :=
  exitState (setOutputFile environment outputfile) ⟨level, [], [], ⟨none, false⟩⟩

/-- A logger as it is after any calls, also of those that have thrown. -/
inductive Constructed : Logger → Prop where
  | construct {environment : Environment} {outputfile : List Char} {level : LogLevel} :
      construct environment outputfile level = some logger → Constructed logger
  | setLogLevel {level : LogLevel} : Constructed logger → Constructed (logger.setLogLevel level)
  | setOutputFile {environment : Environment} {filename : List Char} :
      Constructed logger → Leaves (setOutputFile environment filename) logger after → Constructed after

/-- The logger still names its file as before, and every call of `log` does the same. -/
def KeepsWorking (before after : Logger) : Prop :=
  after.getOutputPathFile = before.getOutputPathFile ∧ ∀ call, after.log call = before.log call

/-- The directory is there or can be made. -/
def DirectoryUsable (environment : Environment) (dirPath : List Char) : Prop :=
  environment.stat dirPath = some true ∨
    environment.stat dirPath = none ∧
      (environment.mkdir dirPath = .ok () ∨ environment.mkdir dirPath = .error EEXIST)

/-- If the directory cannot be used, the name must be the current one, and if it
can, the file must open. -/
def FailsClean (logger : Logger) (environment : Environment) (filename : List Char) : Prop :=
  (∃ errno, environment.getcwd = .error errno) ∨
    (¬ DirectoryUsable environment (dirPath logger.outputFilePath) ∧
      chosenName environment filename = logger.logFilename) ∨
    (DirectoryUsable environment (dirPath logger.outputFilePath) ∧
      environment.opens (logger.outputFilePath ++ chosenName environment filename ++ ".log".toList) = true)

/-! ### The exits of `setOutputFile` -/

/-- The logger under its new name, before the directory is looked at. -/
def renamed (logger : Logger) (environment : Environment) (buffer filename : List Char) : Logger :=
  { logger with
    logFilename := chosenName environment filename
    outputFilePath := if logger.outputFilePath = [] then buffer ++ "/logs/".toList else logger.outputFilePath }

theorem renamed_outputFilePath_ne (logger : Logger) (environment : Environment) (buffer filename : List Char) :
    (logger.renamed environment buffer filename).outputFilePath ≠ [] := by
  unfold renamed
  split
  · simp
  · assumption

theorem renamed_eq {logger : Logger} (placed : logger.outputFilePath ≠ []) (environment : Environment)
    (buffer filename : List Char) :
    logger.renamed environment buffer filename = { logger with logFilename := chosenName environment filename } := by
  rw [renamed, if_neg placed]

theorem ensureDirectory_usable {environment : Environment} {dirPath : List Char}
    (usable : DirectoryUsable environment dirPath) (logger : Logger) :
    (ensureDirectory environment dirPath).run logger = .ok () logger := by
  unfold ensureDirectory
  rcases usable with there | ⟨missing, made | exists_already⟩
  · rw [there]
    rfl
  · rw [missing, made]
    rfl
  · rw [missing, exists_already]
    rfl

theorem ensureDirectory_refuses {environment : Environment} {dirPath : List Char}
    (unusable : ¬ DirectoryUsable environment dirPath) (logger : Logger) :
    ∃ error, (ensureDirectory environment dirPath).run logger = .error (.thrown error) logger := by
  unfold ensureDirectory
  cases found : environment.stat dirPath with
  | none =>
    cases made : environment.mkdir dirPath with
    | ok _ => exact absurd (Or.inr ⟨found, Or.inl made⟩) unusable
    | error errno =>
      have other : errno ≠ EEXIST := fun same => unusable (Or.inr ⟨found, Or.inr (same ▸ made)⟩)
      exact ⟨_, by simp only [if_pos other]; rfl⟩
  | some isDirectory =>
    cases isDirectory with
    | true => exact absurd (Or.inl found) unusable
    | false => exact ⟨_, rfl⟩

/-- What `setOutputFile` does once it knows the working directory. -/
theorem setOutputFile_run {environment : Environment} {buffer : List Char} (known : environment.getcwd = .ok buffer)
    (filename : List Char) (logger : Logger) :
    (setOutputFile environment filename).run logger =
      match (ensureDirectory environment (dirPath (logger.renamed environment buffer filename).outputFilePath)).run
        (logger.renamed environment buffer filename) with
      | .error halt after => .error halt after
      | .ok () after =>
        if environment.opens after.getOutputPathFile then
          .ok () { after with logFile := ⟨some after.getOutputPathFile, false⟩ }
        else
          .error (.thrown (.runtimeError ("Could not open log file: " ++ String.ofList after.logFilename ++ ".log")))
            { after with logFile := ⟨none, true⟩ } := by
  have placed : (if logger.outputFilePath = [] then
      { logger with logFilename := chosenName environment filename, outputFilePath := buffer ++ "/logs/".toList }
      else { logger with logFilename := chosenName environment filename }) =
      logger.renamed environment buffer filename := by
    unfold renamed
    split <;> rfl
  unfold setOutputFile
  rw [known]
  simp only [EStateM.run_bind, EStateM.run_modify, EStateM.run_get, placed]
  cases (ensureDirectory environment (dirPath (logger.renamed environment buffer filename).outputFilePath)).run
    (logger.renamed environment buffer filename) with
  | error halt after => rfl
  | ok _ after =>
    by_cases opens : environment.opens after.getOutputPathFile = true
    · refine Eq.trans ?_ (if_pos opens).symm
      unfold getOutputPathFile at opens
      simp only [Ofstream.openAt, if_pos opens]
      rfl
    · refine Eq.trans ?_ (if_neg opens).symm
      unfold getOutputPathFile at opens
      simp only [Ofstream.openAt, if_neg opens]
      rfl

/-- The four exits, each with the logger it leaves. -/
theorem setOutputFile_cases (environment : Environment) (filename : List Char) (logger : Logger) :
    (∃ errno error, environment.getcwd = .error errno ∧
      (setOutputFile environment filename).run logger = .error (.thrown error) logger) ∨
    ∃ buffer named, environment.getcwd = .ok buffer ∧ named = logger.renamed environment buffer filename ∧
      ((¬ DirectoryUsable environment (dirPath named.outputFilePath) ∧
          ∃ error, (setOutputFile environment filename).run logger = .error (.thrown error) named) ∨
        (DirectoryUsable environment (dirPath named.outputFilePath) ∧
          environment.opens named.getOutputPathFile = true ∧
          (setOutputFile environment filename).run logger =
            .ok () { named with logFile := ⟨some named.getOutputPathFile, false⟩ }) ∨
        (DirectoryUsable environment (dirPath named.outputFilePath) ∧
          environment.opens named.getOutputPathFile ≠ true ∧
          ∃ error, (setOutputFile environment filename).run logger =
            .error (.thrown error) { named with logFile := ⟨none, true⟩ })) := by
  cases known : environment.getcwd with
  | error errno =>
    obtain ⟨error, ran⟩ : ∃ error, (setOutputFile environment filename).run logger = .error (.thrown error) logger := by
      unfold setOutputFile
      rw [known]
      exact ⟨_, rfl⟩
    exact Or.inl ⟨errno, error, rfl, ran⟩
  | ok buffer =>
    right
    refine ⟨buffer, _, rfl, rfl, ?_⟩
    rw [setOutputFile_run known]
    by_cases usable : DirectoryUsable environment (dirPath (logger.renamed environment buffer filename).outputFilePath)
    · rw [ensureDirectory_usable usable]
      by_cases opens : environment.opens (logger.renamed environment buffer filename).getOutputPathFile = true
      · exact Or.inr (Or.inl ⟨usable, opens, if_pos opens⟩)
      · exact Or.inr (Or.inr ⟨usable, opens, _, if_neg opens⟩)
    · obtain ⟨error, refused⟩ := ensureDirectory_refuses usable (logger.renamed environment buffer filename)
      rw [refused]
      exact Or.inl ⟨usable, error, rfl⟩

/-! ### Loggers -/

/-- A logger knows its directory, and has a file open only on a stream that works. -/
def Placed (logger : Logger) : Prop :=
  logger.outputFilePath ≠ [] ∧ (logger.logFile.isOpen = true → logger.logFile.fail = false)

theorem returned_placed {environment : Environment} {filename : List Char}
    (ran : (setOutputFile environment filename).run logger = .ok () after) : Placed after := by
  obtain ⟨_, _, _, stopped⟩ | ⟨buffer, named, _, rfl, ⟨_, _, stopped⟩ | ⟨_, _, returned⟩ | ⟨_, _, _, stopped⟩⟩ :=
    setOutputFile_cases environment filename logger
  · rw [ran] at stopped
    cases stopped
  · rw [ran] at stopped
    cases stopped
  · rw [ran] at returned
    cases returned
    exact ⟨renamed_outputFilePath_ne logger environment buffer filename, fun _ => rfl⟩
  · rw [ran] at stopped
    cases stopped

theorem thrown_placed {environment : Environment} {filename : List Char} (placed : Placed logger)
    (ran : (setOutputFile environment filename).run logger = .error (.thrown error) after) : Placed after := by
  obtain ⟨_, _, _, stopped⟩ | ⟨buffer, named, _, rfl, ⟨_, _, stopped⟩ | ⟨_, _, returned⟩ | ⟨_, _, _, stopped⟩⟩ :=
    setOutputFile_cases environment filename logger
  · rw [ran] at stopped
    cases stopped
    exact placed
  · rw [ran] at stopped
    cases stopped
    exact ⟨renamed_outputFilePath_ne logger environment buffer filename, placed.2⟩
  · rw [ran] at returned
    cases returned
  · rw [ran] at stopped
    cases stopped
    exact ⟨renamed_outputFilePath_ne logger environment buffer filename, nofun⟩

theorem placed_of_constructed (constructed : Constructed logger) : Placed logger := by
  induction constructed with
  | @construct logger environment outputfile level built =>
    have returns : (exitState (setOutputFile environment outputfile) ⟨level, [], [], ⟨none, false⟩⟩).isSome :=
      Option.isSome_of_eq_some built
    have ran := run_exitState returns
    rw [Option.get_of_eq_some returns built] at ran
    exact returned_placed ran
  | setLogLevel _ placed => exact placed
  | setOutputFile _ left placed =>
    rcases left with ⟨_, ran⟩ | ⟨error, ran⟩
    · exact returned_placed ran
    · exact thrown_placed placed ran

/-! ### After an exception -/

theorem getOutputPathFile_renamed {logger : Logger} (name : List Char) :
    { logger with logFilename := name }.getOutputPathFile = logger.getOutputPathFile ↔ name = logger.logFilename := by
  simp [getOutputPathFile]

/-- Only the name differs, and with it the path. -/
theorem keepsWorking_renamed_iff {logger : Logger} (name : List Char) :
    KeepsWorking logger { logger with logFilename := name } ↔ name = logger.logFilename :=
  ⟨fun keeps => (getOutputPathFile_renamed name).mp keeps.1,
    fun same => ⟨(getOutputPathFile_renamed name).mpr same, fun _ => rfl⟩⟩

/-- The most severe records go to the file that is open. -/
theorem log_error {logger : Logger} (placed : Placed logger) (opened : logger.logFile.isOpen = true)
    (message : List Char) (localTime : Tm) : (logger.log ⟨.ERROR, message, localTime⟩).isSome := by
  have severe : ¬ LogLevel.ERROR.value < logger.currentLevel.value := by
    cases logger.currentLevel <;> decide
  rw [log, if_neg severe, placed.2 opened]
  simpa [Ofstream.isOpen] using opened

theorem not_keepsWorking_unopened {logger after : Logger} (placed : Placed logger)
    (opened : logger.logFile.isOpen = true) (lost : after.logFile.fail = true) : ¬ KeepsWorking logger after := by
  intro keeps
  have written := log_error placed opened [] ⟨0, 0, 0, 1, 0, 0⟩
  rw [← keeps.2, log, lost, if_pos rfl, ite_self] at written
  cases written

/-- After an exception, the logger works as before exactly if the system's
answers and the name are such. -/
theorem setOutputFile_keeps_iff {logger : Logger} (constructed : Constructed logger)
    (opened : logger.logFile.isOpen = true) (environment : Environment) (filename : List Char) :
    (∀ error after, (setOutputFile environment filename).run logger = .error (.thrown error) after →
      KeepsWorking logger after) ↔ FailsClean logger environment filename := by
  have placed := placed_of_constructed constructed
  unfold FailsClean
  obtain ⟨errno, error, failed, ran⟩ | ⟨buffer, named, known, named_eq, exits⟩ :=
    setOutputFile_cases environment filename logger
  · refine ⟨fun _ => Or.inl ⟨errno, failed⟩, fun _ error' after threw => ?_⟩
    rw [ran] at threw
    cases threw
    exact ⟨rfl, fun _ => rfl⟩
  · have informed : ¬ ∃ errno, environment.getcwd = .error errno := by
      rintro ⟨errno, failed⟩
      rw [known] at failed
      cases failed
    rw [renamed_eq placed.1] at named_eq
    subst named_eq
    obtain ⟨unusable, error, ran⟩ | ⟨usable, opens, ran⟩ | ⟨usable, shut, error, ran⟩ := exits
    · have reached : (∀ error after, (setOutputFile environment filename).run logger = .error (.thrown error) after →
          KeepsWorking logger after) ↔ chosenName environment filename = logger.logFilename := by
        rw [← keepsWorking_renamed_iff]
        constructor
        · exact fun keeps => keeps error _ ran
        · intro keeps error' after threw
          rw [ran] at threw
          cases threw
          exact keeps
      rw [reached]
      exact ⟨fun same => Or.inr (Or.inl ⟨unusable, same⟩),
        fun clean => clean.elim (absurd · informed) (fun clean => clean.elim And.right (absurd ·.1 unusable))⟩
    · refine ⟨fun _ => Or.inr (Or.inr ⟨usable, opens⟩), fun _ error after threw => ?_⟩
      rw [ran] at threw
      cases threw
    · constructor
      · exact fun keeps => absurd (keeps error _ ran) (not_keepsWorking_unopened placed opened rfl)
      · rintro (failed | ⟨unusable, _⟩ | ⟨_, opens⟩)
        · exact absurd failed informed
        · exact absurd usable unusable
        · exact absurd opens shut

/-- In `/`, where the directory `logs` is missing and cannot be made again. -/
def afterRemoval : Environment where
  getcwd := .ok ['/']
  localTime := ⟨0, 0, 0, 1, 0, 125⟩
  stat := fun _ => none
  mkdir := fun _ => .error 28
  opens := fun _ => true

def atStart : Environment := { afterRemoval with stat := fun _ => some true }

def loggerOfA : Logger := ⟨.DEBUG, ['a'], "//logs/".toList, ⟨some "//logs/a.log".toList, false⟩⟩

theorem loggerOfA_constructed : Constructed loggerOfA :=
  .construct (show construct atStart ['a'] .DEBUG = some loggerOfA by decide)

/-- The logger writes to `a.log` and names `b.log`. -/
theorem setOutputFile_half_done :
    Constructed loggerOfA ∧ loggerOfA.logFile.isOpen = true ∧
      ∃ error after, (setOutputFile afterRemoval ['b']).run loggerOfA = .error (.thrown error) after ∧
        ¬ KeepsWorking loggerOfA after := by
  refine ⟨loggerOfA_constructed, rfl, _, { loggerOfA with logFilename := ['b'] }, rfl, fun keeps => ?_⟩
  exact absurd keeps.1 (by decide)

theorem setOutputFile_keeps_same_name :
    FailsClean loggerOfA afterRemoval ['a'] ∧
      ((∀ error after, (setOutputFile afterRemoval ['a']).run loggerOfA = .error (.thrown error) after →
        KeepsWorking loggerOfA after) ↔ FailsClean loggerOfA afterRemoval ['a']) :=
  ⟨Or.inr (Or.inl ⟨by simp [DirectoryUsable, afterRemoval, EEXIST], rfl⟩),
    setOutputFile_keeps_iff loggerOfA_constructed rfl afterRemoval ['a']⟩

end Logger
end Libftpp
