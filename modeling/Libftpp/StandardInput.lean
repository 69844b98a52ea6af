import Mathlib.Data.List.TakeWhile
import Libftpp.DataBuffer

/-! Input through `ThreadSafeIOStream` (`thread_safe_iostream.hpp`). The loop of
`operator>>` drops the rest of the line after every extraction that fails and
tries again, under the mutex that all output needs. It does not tell a wrong
token from the end of the input, at which `clear` and `ignore` change nothing. -/
namespace Libftpp
open Program

namespace ThreadSafeIOStream

/-- What `std::cin` has left until the end-of-file, and its flags. -/
structure Cin where
  rest : List Char
  eofbit : Bool
  failbit : Bool
  deriving DecidableEq

/-- The formatted extraction of a type: what it makes of the input of a stream
without flags. It gives a value or fails, and leaves a rest of the input; the
last component tells if it has come to the end. -/
structure Extraction (TType : Type) where
  scan : List Char → Option TType × List Char × Bool
  suffix : ∀ input, (scan input).2.1 <:+ input

/-- The count of characters that `operator>>` hands to `ignore`. -/
def INT32_MAX : Nat := 2147483647

namespace Cin

/-- `good()`. -/
def good (cin : Cin) : Bool := !cin.eofbit && !cin.failbit

/-- `clear()`. -/
def clear (cin : Cin) : Cin := ⟨cin.rest, false, false⟩

/-- The characters `ignore` leaves, and whether it has come to the end. -/
def ignoring (delim : Char) (n : Nat) : List Char → List Char × Bool
  | [] => ([], n ≠ 0)
  | char :: rest =>
    if n = 0 then (char :: rest, false)
    else if char = delim then (rest, false)
    else ignoring delim (n - 1) rest

/-- `ignore(n, delim)`. It has no effect on a stream with a flag. -/
def ignore (cin : Cin) (n : Nat) (delim : Char) : Cin :=
  if cin.good then
    let (rest, eofbit) := ignoring delim n cin.rest
    ⟨rest, eofbit, false⟩
  else { cin with failbit := true }

variable {TType : Type}

/-- `std::cin >> value`. On a stream with a flag it only fails. -/
def extract (extraction : Extraction TType) (cin : Cin) : Option TType × Cin :=
  if cin.good then
    let (value, rest, eofbit) := extraction.scan cin.rest
    (value, ⟨rest, eofbit, value.isNone⟩)
  else (none, { cin with failbit := true })

end Cin

/-- The standard streams, and the mutex of all `ThreadSafeIOStream`s. -/
structure Terminal where
  cin : Cin
  cout : List Char
  locked : Bool
  deriving DecidableEq

section Operations
variable {TType : Type}

/-- `std::lock_guard<std::mutex> lock(_mutex)` before the rest of the scope. -/
def lockGuard (scope : Program Exn Terminal TType) : Program Exn Terminal TType := fun terminal =>
  if terminal.locked then .error .diverges terminal
  else
    match scope.run { terminal with locked := true } with
    | .ok value after => .ok value { after with locked := false }
    | .error (.thrown error) after => .error (.thrown error) { after with locked := false }
    | .error halt after => .error halt after

/-- `std::cout << text`. -/
def print (text : List Char) : Program Exn Terminal Unit :=
  modify fun terminal => { terminal with cout := terminal.cout ++ text }

/-- What the loop does after an extraction that failed. -/
def recover : Program Exn Terminal Unit := do
  print "Invalid input !\n".toList
  modify fun terminal => { terminal with cin := terminal.cin.clear }
  modify fun terminal => { terminal with cin := terminal.cin.ignore INT32_MAX '\n' }

/-- The loop of `operator>>`, given up as divergent after `fuel` rounds. -/
def extractLoop (extraction : Extraction TType) : Nat → Program Exn Terminal TType
  | 0 => hang
  | fuel + 1 => do
    let terminal ← get
    let (value, cin) := terminal.cin.extract extraction
    set { terminal with cin }
    match value with
    | none => do
      recover
      extractLoop extraction fuel
    | some value => pure value

/-- `ThreadSafeIOStream::operator>>`. -/
def extract (extraction : Extraction TType) (fuel : Nat) : Program Exn Terminal TType :=
  lockGuard (extractLoop extraction fuel)

/-- `ThreadSafeIOStream::prompt`. -/
def prompt (extraction : Extraction TType) (question : List Char) (fuel : Nat) : Program Exn Terminal TType := do
  lockGuard (print question)
  extract extraction fuel

/-- The call comes back after finitely many rounds, and has released the mutex. -/
def Ends (call : Nat → Program Exn Terminal TType) (before : Terminal) : Prop :=
  ∃ fuel value after, (call fuel).run before = .ok value after ∧ after.locked = false

/-- No value can be extracted here, and behind the next newline (or
`INT32_MAX` characters) after what has been consumed, the input goes on there. -/
def RetriesAt (extraction : Extraction TType) (here there : List Char) : Prop :=
  (extraction.scan here).1 = none ∧ Cin.ignoring '\n' INT32_MAX (extraction.scan here).2.1 = (there, false)

/-- A value can be extracted here, or at one of the places where the loop tries again. -/
def ValueAhead (extraction : Extraction TType) (input : List Char) : Prop :=
  ∃ place, Relation.ReflTransGen (RetriesAt extraction) input place ∧ (extraction.scan place).1.isSome

/-- The same for a stream with flags: with one set, the loop begins by dropping a line. -/
def Cin.Offers (extraction : Extraction TType) (cin : Cin) : Prop :=
  if cin.good then ValueAhead extraction cin.rest
  else ∃ place, Cin.ignoring '\n' INT32_MAX cin.rest = (place, false) ∧ ValueAhead extraction place

/-! ### One round -/

theorem ignoring_end {delim : Char} {n : Nat} {input left : List Char} (ends : Cin.ignoring delim n input = (left, true)) :
    left = [] := by
  induction input generalizing n with
  | nil => exact (congrArg Prod.fst ends).symm
  | cons char rest ih =>
    unfold Cin.ignoring at ends
    split at ends
    · cases ends
    · split at ends
      · cases ends
      · exact ih ends

theorem extractLoop_found {extraction : Extraction TType} {terminal : Terminal}
    (found : (terminal.cin.extract extraction).1 = some value) (fuel : Nat) :
    (extractLoop extraction (fuel + 1)).run terminal =
      .ok value { terminal with cin := (terminal.cin.extract extraction).2 } := by
  simp only [extractLoop, EStateM.run_bind, EStateM.run_get, EStateM.run_set, found]
  rfl

theorem extractLoop_failed {extraction : Extraction TType} {terminal : Terminal}
    (failed : (terminal.cin.extract extraction).1 = none) (fuel : Nat) :
    (extractLoop extraction (fuel + 1)).run terminal = (extractLoop extraction fuel).run
      { terminal with
        cin := (terminal.cin.extract extraction).2.clear.ignore INT32_MAX '\n'
        cout := terminal.cout ++ "Invalid input !\n".toList } := by
  simp only [extractLoop, EStateM.run_bind, EStateM.run_get, EStateM.run_set, failed]
  rfl

theorem extract_good {extraction : Extraction TType} {cin : Cin} (good : cin.good = true) :
    cin.extract extraction = ((extraction.scan cin.rest).1,
      ⟨(extraction.scan cin.rest).2.1, (extraction.scan cin.rest).2.2, (extraction.scan cin.rest).1.isNone⟩) := by
  rw [Cin.extract, if_pos good]

theorem extract_flagged {extraction : Extraction TType} {cin : Cin} (flagged : ¬ cin.good = true) :
    cin.extract extraction = (none, { cin with failbit := true }) := by
  rw [Cin.extract, if_neg flagged]

theorem clear_ignore (cin : Cin) :
    cin.clear.ignore INT32_MAX '\n' =
      ⟨(Cin.ignoring '\n' INT32_MAX cin.rest).1, (Cin.ignoring '\n' INT32_MAX cin.rest).2, false⟩ := rfl

/-- At the end of the input, nothing changes any more. -/
theorem extractLoop_stuck {extraction : Extraction TType} {terminal : Terminal} (ended : terminal.cin.rest = [])
    (flagged : terminal.cin.eofbit = true) (fuel : Nat) :
    (extractLoop extraction fuel).run terminal ≠ .ok value after := by
  induction fuel generalizing terminal with
  | zero => nofun
  | succ fuel ih =>
    have blocked : ¬ terminal.cin.good = true := by simp [Cin.good, flagged]
    rw [extractLoop_failed (by rw [extract_flagged blocked]) fuel, extract_flagged blocked]
    apply ih
    · rw [clear_ignore, ended]
      rfl
    · rw [clear_ignore, ended]
      rfl

/-- After a round that failed, the loop is at the next place or at the end. -/
theorem extractLoop_resumes {extraction : Extraction TType} {terminal : Terminal} {left : List Char}
    (failed : (terminal.cin.extract extraction).1 = none) (remains : (terminal.cin.extract extraction).2.rest = left)
    (ran : (extractLoop extraction fuel).run terminal = .ok value after) :
    ∃ fuel' place cout, Cin.ignoring '\n' INT32_MAX left = (place, false) ∧ fuel = fuel' + 1 ∧
      (extractLoop extraction fuel').run ⟨⟨place, false, false⟩, cout, terminal.locked⟩ = .ok value after := by
  cases fuel with
  | zero => cases ran
  | succ fuel =>
    rw [extractLoop_failed failed, clear_ignore, remains] at ran
    cases ends : (Cin.ignoring '\n' INT32_MAX left).2 with
    | true =>
      have nothing : (Cin.ignoring '\n' INT32_MAX left).1 = [] := ignoring_end (Prod.ext rfl ends)
      rw [ends, nothing] at ran
      exact absurd ran (extractLoop_stuck rfl rfl fuel)
    | false =>
      rw [ends] at ran
      exact ⟨fuel, _, _, Prod.ext rfl ends, rfl, ran⟩

/-! ### All rounds -/

theorem valueAhead_of_returns {extraction : Extraction TType} {input cout : List Char} {locked : Bool}
    (ran : (extractLoop extraction fuel).run ⟨⟨input, false, false⟩, cout, locked⟩ = .ok value after) :
    ValueAhead extraction input := by
  induction fuel generalizing input cout with
  | zero => cases ran
  | succ fuel ih =>
    cases found : (extraction.scan input).1 with
    | some value => exact ⟨input, .refl, by rw [found]; rfl⟩
    | none =>
      have same := @extract_good _ extraction ⟨input, false, false⟩ rfl
      obtain ⟨fuel', place, cout', next, counted, rest⟩ :=
        @extractLoop_resumes _ _ _ _ extraction ⟨⟨input, false, false⟩, cout, locked⟩ _
          (congrArg Prod.fst same |>.trans found) (congrArg (fun result => result.2.rest) same) ran
      cases counted
      obtain ⟨last, retries, value⟩ := ih rest
      exact ⟨last, .head ⟨found, next⟩ retries, value⟩

theorem returns_of_valueAhead {extraction : Extraction TType} {input : List Char} (ahead : ValueAhead extraction input)
    (cout : List Char) (locked : Bool) :
    ∃ fuel value after, (extractLoop extraction fuel).run ⟨⟨input, false, false⟩, cout, locked⟩ = .ok value after ∧
      after.locked = locked := by
  obtain ⟨place, retries, found⟩ := ahead
  obtain ⟨value, found⟩ := Option.isSome_iff_exists.mp found
  have here (input : List Char) := @extract_good _ extraction ⟨input, false, false⟩ rfl
  induction retries using Relation.ReflTransGen.head_induction_on generalizing cout with
  | refl =>
    have ran := @extractLoop_found _ _ extraction ⟨⟨place, false, false⟩, cout, locked⟩
      ((congrArg Prod.fst (here place)).trans found) 0
    exact ⟨1, value, _, ran, rfl⟩
  | @head input next retry _ ih =>
    obtain ⟨fuel, value, after, ran, kept⟩ := ih (cout ++ "Invalid input !\n".toList)
    refine ⟨fuel + 1, value, after, ?_, kept⟩
    have failed := @extractLoop_failed _ extraction ⟨⟨input, false, false⟩, cout, locked⟩
      ((congrArg Prod.fst (here input)).trans retry.1) fuel
    rw [failed, here, clear_ignore, retry.2]
    exact ran

/-- With any flags set: the loop comes back exactly if there is a value for it. -/
theorem extractLoop_returns_iff (extraction : Extraction TType) (cin : Cin) (cout : List Char) (locked : Bool) :
    (∃ fuel value after, (extractLoop extraction fuel).run ⟨cin, cout, locked⟩ = .ok value after ∧
      after.locked = locked) ↔ cin.Offers extraction := by
  unfold Cin.Offers
  by_cases good : cin.good = true
  · obtain ⟨rest, eofbit, failbit⟩ := cin
    have flags : eofbit = false ∧ failbit = false := by simpa [Cin.good] using good
    obtain ⟨rfl, rfl⟩ := flags
    rw [if_pos good]
    constructor
    · rintro ⟨fuel, value, after, ran, _⟩
      exact valueAhead_of_returns ran
    · exact fun ahead => returns_of_valueAhead ahead cout locked
  · rw [if_neg good]
    have blocked := @extract_flagged _ extraction cin good
    constructor
    · rintro ⟨fuel, value, after, ran, _⟩
      obtain ⟨fuel', place, cout', next, _, rest⟩ :=
        @extractLoop_resumes _ _ _ _ extraction ⟨cin, cout, locked⟩ _ (congrArg Prod.fst blocked)
          (congrArg (fun result => result.2.rest) blocked) ran
      exact ⟨place, next, valueAhead_of_returns rest⟩
    · rintro ⟨place, next, ahead⟩
      obtain ⟨fuel, value, after, ran, kept⟩ := returns_of_valueAhead ahead (cout ++ "Invalid input !\n".toList) locked
      refine ⟨fuel + 1, value, after, ?_, kept⟩
      have failed := @extractLoop_failed _ extraction ⟨cin, cout, locked⟩ (congrArg Prod.fst blocked) fuel
      rw [failed, blocked, clear_ignore, next]
      exact ran

theorem lockGuard_free (scope : Program Exn Terminal TType) (cin : Cin) (cout : List Char) :
    (lockGuard scope).run ⟨cin, cout, false⟩ =
      match scope.run ⟨cin, cout, true⟩ with
      | .ok value after => .ok value { after with locked := false }
      | .error (.thrown error) after => .error (.thrown error) { after with locked := false }
      | .error halt after => .error halt after := rfl

theorem lockGuard_returns {scope : Program Exn Terminal TType} {cin : Cin} {cout : List Char}
    (ran : scope.run ⟨cin, cout, true⟩ = .ok value last) :
    (lockGuard scope).run ⟨cin, cout, false⟩ = .ok value { last with locked := false } := by
  rw [lockGuard_free, ran]

theorem of_lockGuard_returns {scope : Program Exn Terminal TType} {cin : Cin} {cout : List Char}
    (ran : (lockGuard scope).run ⟨cin, cout, false⟩ = .ok value after) :
    ∃ last, scope.run ⟨cin, cout, true⟩ = .ok value last := by
  rw [lockGuard_free] at ran
  cases returned : scope.run ⟨cin, cout, true⟩ with
  | ok found last =>
    rw [returned] at ran
    cases ran
    exact ⟨last, rfl⟩
  | error halt last =>
    rw [returned] at ran
    cases halt <;> cases ran

/-- The loop does not touch the mutex. -/
theorem extractLoop_locked {extraction : Extraction TType} {terminal : Terminal}
    (ran : (extractLoop extraction fuel).run terminal = .ok value after) : after.locked = terminal.locked := by
  induction fuel generalizing terminal with
  | zero => cases ran
  | succ fuel ih =>
    cases found : (terminal.cin.extract extraction).1 with
    | some value =>
      rw [extractLoop_found found] at ran
      cases ran
      rfl
    | none =>
      rw [extractLoop_failed found] at ran
      have kept := ih ran
      exact kept

theorem extract_ends_iff (extraction : Extraction TType) (cin : Cin) (cout : List Char) :
    Ends (extract extraction) ⟨cin, cout, false⟩ ↔ cin.Offers extraction := by
  rw [← extractLoop_returns_iff extraction cin cout true]
  unfold Ends extract
  constructor
  · rintro ⟨fuel, value, after, ended⟩
    obtain ⟨last, ran⟩ := of_lockGuard_returns ended.1
    exact ⟨fuel, value, last, ran, extractLoop_locked ran⟩
  · rintro ⟨fuel, value, last, ran, _⟩
    exact ⟨fuel, value, _, lockGuard_returns ran, rfl⟩

/-- More rounds make a difference only to a loop that was given up. -/
theorem extractLoop_more {extraction : Extraction TType} (enough : fuel ≤ more) :
    Approximates (extractLoop extraction fuel) (extractLoop extraction more) := by
  induction fuel generalizing more with
  | zero => exact .hang _
  | succ fuel ih =>
    obtain ⟨fewer, rfl⟩ : ∃ fewer, more = fewer + 1 := ⟨more - 1, by omega⟩
    intro terminal
    cases found : (terminal.cin.extract extraction).1 with
    | some value =>
      rw [extractLoop_found found, extractLoop_found found]
      exact Or.inr rfl
    | none =>
      rw [extractLoop_failed found, extractLoop_failed found]
      exact ih (by omega) _

theorem lockGuard_more {first second : Program Exn Terminal TType} (scope : Approximates first second) :
    Approximates (lockGuard first) (lockGuard second) := by
  rintro ⟨cin, cout, locked⟩
  cases locked with
  | true => exact Or.inr rfl
  | false =>
    simp only [lockGuard_free]
    rcases scope ⟨cin, cout, true⟩ with ⟨after, stopped⟩ | same
    · exact Or.inl ⟨after, by simp [stopped]⟩
    · exact Or.inr (by rw [same])

/-- What a read gives does not depend on the budget with which it ends. -/
theorem extract_unique {extraction : Extraction TType} {before after after' : Terminal} {value value' : TType}
    (one : (extract extraction fuel).run before = .ok value after)
    (other : (extract extraction more).run before = .ok value' after') : value = value' ∧ after = after' :=
  Approximates.unique (fun _ _ enough => lockGuard_more (extractLoop_more enough)) one other

/-- `prompt` prints its question and goes on like `operator>>`. -/
theorem prompt_run (extraction : Extraction TType) (question : List Char) (fuel : Nat) (cin : Cin) (cout : List Char) :
    (prompt extraction question fuel).run ⟨cin, cout, false⟩ =
      (extract extraction fuel).run ⟨cin, cout ++ question, false⟩ := rfl

/-- `operator>>` and `prompt` come back exactly if the input has a value at a
place where the loop looks for one. -/
theorem reading_ends_iff (extraction : Extraction TType) (cin : Cin) (cout : List Char) :
    (Ends (extract extraction) ⟨cin, cout, false⟩ ↔ cin.Offers extraction) ∧
      ∀ question, Ends (prompt extraction question) ⟨cin, cout, false⟩ ↔ cin.Offers extraction := by
  refine ⟨extract_ends_iff extraction cin cout, fun question => ?_⟩
  simp only [Ends, prompt_run]
  exact extract_ends_iff extraction cin (cout ++ question)

end Operations

/-! ### Reading a `std::string` -/

/-- `std::isspace` in the "C" locale. -/
def isspace (char : Char) : Bool := char.toNat = 32 || (9 ≤ char.toNat && char.toNat ≤ 13)

/-- A word of the input behind the white space, and whether the end was met. -/
def scanString (input : List Char) : Option (List Char) × List Char × Bool :=
  match input.dropWhile isspace with
  | [] => (none, [], true)
  | char :: rest =>
    (some (char :: rest.takeWhile (!isspace ·)), rest.dropWhile (!isspace ·), (rest.dropWhile (!isspace ·)).isEmpty)

theorem scanString_suffix (input : List Char) : (scanString input).2.1 <:+ input := by
  unfold scanString
  split
  · exact List.nil_suffix
  · rename_i skipped
    exact (List.dropWhile_suffix _).trans ((List.suffix_cons _ _).trans (skipped ▸ List.dropWhile_suffix _))

/-- `operator>>(std::istream&, std::string&)`. -/
def extractString : Extraction (List Char) := ⟨scanString, scanString_suffix⟩

theorem scanString_isSome (input : List Char) :
    (scanString input).1.isSome ↔ ∃ char ∈ input, ¬ isspace char = true := by
  have skipped : input.dropWhile isspace = [] ↔ ∀ char ∈ input, isspace char = true := List.dropWhile_eq_nil_iff
  unfold scanString
  split
  · rename_i nothing
    simpa using skipped.mp nothing
  · rename_i char rest something
    have visible : ¬ ∀ char ∈ input, isspace char = true := fun all => by
      rw [skipped.mpr all] at something
      cases something
    simpa using visible

theorem not_retriesAt_string (here there : List Char) : ¬ RetriesAt extractString here there := by
  rintro ⟨failed, next⟩
  change (scanString here).1 = none at failed
  change Cin.ignoring '\n' INT32_MAX (scanString here).2.1 = _ at next
  unfold scanString at failed next
  split at next
  · cases next
  · rename_i something
    rw [something] at failed
    cases failed

/-- A string can be read exactly from an input that is not all white space. -/
theorem reading_string_ends_iff (input cout : List Char) :
    Ends (extract extractString) ⟨⟨input, false, false⟩, cout, false⟩ ↔ ∃ char ∈ input, ¬ isspace char = true := by
  rw [extract_ends_iff]
  change ValueAhead extractString input ↔ _
  rw [← scanString_isSome]
  constructor
  · rintro ⟨place, retries, found⟩
    -- A failing scan leaves nothing, and the loop tries again at the end.
    obtain rfl | ⟨next, retry, _⟩ := retries.cases_head
    · exact found
    · exact absurd retry (not_retriesAt_string input next)
  · exact fun found => ⟨input, .refl, found⟩

/-- On an input without a word, the mutex is never released. -/
theorem reading_blank_line_hangs :
    ¬ (Ends (extract extractString) ⟨⟨['\n'], false, false⟩, [], false⟩ ∨
      Ends (prompt extractString []) ⟨⟨['\n'], false, false⟩, [], false⟩) := by
  have blank : ¬ ∃ char ∈ ['\n'], ¬ isspace char = true := by
    rintro ⟨char, member, visible⟩
    cases List.mem_singleton.mp member
    exact visible rfl
  have endless : ¬ Ends (extract extractString) ⟨⟨['\n'], false, false⟩, [], false⟩ := fun ended =>
    blank ((reading_string_ends_iff _ _).mp ended)
  rintro (ended | ended)
  · exact endless ended
  · exact endless ended

end ThreadSafeIOStream
end Libftpp
