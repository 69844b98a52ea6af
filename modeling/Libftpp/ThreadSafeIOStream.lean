import Mathlib.Data.List.Induction
import Mathlib.Logic.Function.Basic
import Libftpp.Lines
import Libftpp.Threads

/-! Output through `ThreadSafeIOStream` (`thread_safe_iostream.hpp`, `.cpp`). A
stream holds back the text of an unfinished line, but what an insertion has after
its last newline is written at once and without the prefix. The line on the
console is then left open, and the next thread that writes goes on with it. -/
namespace Libftpp
open Threads

/-- `class ThreadSafeIOStream`. -/
structure ThreadSafeIOStream where
  buffer : List Char
  linePrefix : List Char

/-- What is inserted with `<<`: a value, which prints as this text, or `std::endl`. -/
inductive Insertion where
  | text (value : List Char)
  | endl
  deriving DecidableEq

namespace ThreadSafeIOStream

/-- The loop of `operator<<` over the lines of the buffer, and the write after it.
`text` lies between the cursor and the place where the next newline is sought. -/
def writeLines (linePrefix text : List Char) : List Char → List Char
  | [] => text
  | char :: line =>
    if char = '\n' then linePrefix ++ text ++ '\n' :: writeLines linePrefix [] line
    else writeLines linePrefix (text ++ [char]) line

/-- `operator<<` for a value, and what it writes to `std::cout`. -/
def insertText (stream : ThreadSafeIOStream) (value : List Char) : ThreadSafeIOStream × List Char :=
  let line := stream.buffer ++ value
  if '\n' ∉ line then ({ stream with buffer := line }, [])
  else ({ stream with buffer := [] }, writeLines stream.linePrefix [] line)

/-- `ThreadSafeIOStream::flushBuffer`. -/
def flushBuffer (stream : ThreadSafeIOStream) : ThreadSafeIOStream × List Char :=
  if stream.buffer ≠ [] then ({ stream with buffer := [] }, stream.linePrefix ++ stream.buffer)
  else (stream, [])

/-- `operator<<` for a manipulator, with `std::endl`. -/
def insertEndl (stream : ThreadSafeIOStream) : ThreadSafeIOStream × List Char :=
  let (flushed, written) := stream.flushBuffer
  (flushed, written ++ ['\n'])

def insert (stream : ThreadSafeIOStream) : Insertion → ThreadSafeIOStream × List Char
  | .text value => stream.insertText value
  | .endl => stream.insertEndl

/-! ### What is written -/

theorem writeLines_unbroken (linePrefix text : List Char) {line : List Char} (unbroken : '\n' ∉ line) :
    writeLines linePrefix text line = text ++ line := by
  induction line generalizing text with
  | nil => exact (List.append_nil _).symm
  | cons char line ih =>
    have other : char ≠ '\n' := fun same => unbroken (same ▸ List.mem_cons_self ..)
    rw [writeLines, if_neg other, ih _ fun later => unbroken (List.mem_cons_of_mem _ later), List.append_assoc]
    rfl

theorem writeLines_breaks (linePrefix text : List Char) {line : List Char} (breaks : '\n' ∈ line) :
    '\n' ∈ writeLines linePrefix text line := by
  induction line generalizing text with
  | nil => cases breaks
  | cons char line ih =>
    rw [writeLines]
    split
    · exact List.mem_append_right _ (List.mem_cons_self ..)
    · rename_i other
      exact ih _ ((List.mem_cons.mp breaks).resolve_left fun same => other same.symm)

/-- The output ends as the buffer does: what follows its last newline is written too. -/
theorem writeLines_last (linePrefix text line : List Char) (whole : text = [] ∨ '\n' ∈ line) :
    (writeLines linePrefix text line).getLast? = line.getLast? := by
  induction line generalizing text with
  | nil =>
    rcases whole with rfl | breaks
    · rfl
    · cases breaks
  | cons char line ih =>
    rw [writeLines]
    split
    · rename_i newline
      rw [List.getLast?_append, List.getLast?_cons, ih [] (Or.inl rfl), newline, List.getLast?_cons]
      rfl
    · rename_i other
      by_cases breaks : '\n' ∈ line
      · have some := List.getLast?_eq_some_getLast (List.ne_nil_of_mem breaks)
        rw [ih _ (Or.inr breaks), List.getLast?_cons, some]
        rfl
      · have empty : text = [] :=
          whole.resolve_right fun member => breaks ((List.mem_cons.mp member).resolve_left fun same => other same.symm)
        rw [writeLines_unbroken _ _ breaks, empty]
        rfl

/-- It begins with the prefix. -/
theorem writeLines_first (linePrefix text line : List Char) (breaks : '\n' ∈ line) :
    (writeLines linePrefix text line).head? = (linePrefix ++ text ++ line).head? := by
  induction line generalizing text with
  | nil => cases breaks
  | cons char line ih =>
    rw [writeLines]
    split
    · rename_i newline
      rw [newline, List.append_assoc, List.append_assoc]
      cases linePrefix <;> cases text <;> rfl
    · rename_i other
      rw [ih _ ((List.mem_cons.mp breaks).resolve_left fun same => other same.symm)]
      simp

/-! ### Threads that write -/

/-- `std::cout` with the thread that wrote each character, and the stream of each
thread, which is `thread_local`. -/
structure Console (Thread : Type) where
  streams : Thread → ThreadSafeIOStream
  cout : List (Thread × Char)

variable {Thread : Type}

namespace Console

/-- One insertion of one thread, which holds the lock while it writes. -/
def step [DecidableEq Thread] (console : Console Thread) (turn : Thread × Insertion) : Console Thread :=
  let (stream, written) := (console.streams turn.1).insert turn.2
  { streams := Function.update console.streams turn.1 stream
    cout := console.cout ++ written.map fun char => (turn.1, char) }

/-- The threads have set their prefixes and write as the schedule says. -/
def play [DecidableEq Thread] (prefixes : Thread → List Char) (schedule : List (Thread × Insertion)) : Console Thread :=
  schedule.foldl step ⟨fun thread => ⟨[], prefixes thread⟩, []⟩

/-- The lines on the console. -/
def lines (console : Console Thread) : List (List (Thread × Char)) := console.cout.splitOnP fun char => char.2 = '\n'

/-- No line holds characters of two threads. -/
def Atomic (console : Console Thread) : Prop :=
  ∀ line ∈ console.lines, ∀ first ∈ line, ∀ second ∈ line, first.1 = second.1

end Console

/-! ### What a thread inserts -/

/-- The text that a thread has inserted since it last inserted a newline. -/
def pending (inserted : List Insertion) : List Char :=
  inserted.foldl (fun text insertion => match insertion with
    | .text value => if '\n' ∈ value then [] else text ++ value
    | .endl => []) []

/-- The thread inserts a value that has a newline and does not end with one. -/
def Spills (program : List Insertion) : Prop :=
  ∃ value, .text value ∈ program ∧ '\n' ∈ value ∧ value.getLast? ≠ some '\n'

/-- After these insertions, this one has the thread write, and not begin with a newline. -/
def Begins (linePrefix : List Char) (before : List Insertion) : Insertion → Prop
  | .text value => '\n' ∈ value ∧ (linePrefix ++ pending before ++ value).head? ≠ some '\n'
  | .endl => pending before ≠ [] ∧ (linePrefix ++ pending before).head? ≠ some '\n'

/-- The thread writes something that does not begin with a newline. -/
def Writes (linePrefix : List Char) (program : List Insertion) : Prop :=
  ∃ before insertion, before ++ [insertion] <+: program ∧ Begins linePrefix before insertion

theorem pending_snoc (before : List Insertion) (insertion : Insertion) :
    pending (before ++ [insertion]) = match insertion with
      | .text value => if '\n' ∈ value then [] else pending before ++ value
      | .endl => [] := by
  rw [pending, List.foldl_append]
  rfl

theorem pending_unbroken (inserted : List Insertion) : '\n' ∉ pending inserted := by
  induction inserted using List.reverseRecOn with
  | nil => exact List.not_mem_nil
  | append_singleton before insertion ih =>
    rw [pending_snoc]
    cases insertion with
    | text value =>
      dsimp only
      split
      · exact List.not_mem_nil
      · rename_i unbroken
        exact fun listed => (List.mem_append.mp listed).elim ih unbroken
    | endl => exact List.not_mem_nil

/-! ### What an insertion writes -/

theorem insertText_run (linePrefix value : List Char) (before : List Insertion) :
    insertText ⟨pending before, linePrefix⟩ value =
      if '\n' ∈ value then (⟨[], linePrefix⟩, writeLines linePrefix [] (pending before ++ value))
      else (⟨pending before ++ value, linePrefix⟩, []) := by
  have unbroken := pending_unbroken before
  unfold insertText
  by_cases breaks : '\n' ∈ value
  · simp [breaks]
  · simp [breaks, unbroken]

/-- The buffer is the pending text. -/
theorem insert_stream (linePrefix : List Char) (before : List Insertion) (insertion : Insertion) :
    (insert ⟨pending before, linePrefix⟩ insertion).1 = ⟨pending (before ++ [insertion]), linePrefix⟩ := by
  rw [pending_snoc]
  cases insertion with
  | text value =>
    rw [insert, insertText_run]
    dsimp only
    split <;> rfl
  | endl =>
    unfold insert insertEndl flushBuffer
    by_cases empty : pending before = []
    · simp [empty]
    · simp [empty]

/-- Whatever is written has a newline in it. -/
theorem insert_breaks (linePrefix : List Char) (before : List Insertion) (insertion : Insertion) :
    (insert ⟨pending before, linePrefix⟩ insertion).2 = [] ∨
      '\n' ∈ (insert ⟨pending before, linePrefix⟩ insertion).2 := by
  cases insertion with
  | text value =>
    rw [insert, insertText_run]
    split
    · exact Or.inr (writeLines_breaks _ _ (List.mem_append_right _ ‹_›))
    · exact Or.inl rfl
  | endl => exact Or.inr (List.mem_append_right _ (List.mem_singleton.mpr rfl))

theorem insert_first (linePrefix : List Char) (before : List Insertion) (insertion : Insertion) :
    (∃ char, (insert ⟨pending before, linePrefix⟩ insertion).2.head? = some char ∧ char ≠ '\n') ↔
      Begins linePrefix before insertion := by
  have visible {text : List Char} (present : text ≠ []) :
      (∃ char, text.head? = some char ∧ char ≠ '\n') ↔ text.head? ≠ some '\n' := by
    obtain ⟨char, rest, rfl⟩ := List.exists_cons_of_ne_nil present
    simp
  cases insertion with
  | text value =>
    rw [insert, insertText_run]
    by_cases breaks : '\n' ∈ value
    · have line := List.mem_append_right (pending before) breaks
      have whole : linePrefix ++ [] ++ (pending before ++ value) ≠ [] :=
        List.append_ne_nil_of_right_ne_nil _ (List.ne_nil_of_mem line)
      rw [if_pos breaks, writeLines_first _ _ _ line, visible whole, Begins, List.append_nil, ← List.append_assoc]
      exact (and_iff_right breaks).symm
    · rw [if_neg breaks, Begins]
      simp [breaks]
  | endl =>
    unfold insert insertEndl flushBuffer
    by_cases empty : pending before = []
    · simp [empty, Begins]
    · have whole : linePrefix ++ pending before ≠ [] := List.append_ne_nil_of_right_ne_nil _ empty
      have flushed : ((linePrefix ++ pending before) ++ ['\n']).head? = (linePrefix ++ pending before).head? := by
        obtain ⟨char, rest, shape⟩ := List.exists_cons_of_ne_nil whole
        rw [shape]
        rfl
      rw [if_pos empty]
      dsimp only
      rw [flushed, visible whole, Begins]
      exact (and_iff_right empty).symm

theorem insert_last (linePrefix : List Char) (before : List Insertion) (insertion : Insertion) :
    (∃ char, (insert ⟨pending before, linePrefix⟩ insertion).2.getLast? = some char ∧ char ≠ '\n') ↔
      ∃ value, insertion = .text value ∧ '\n' ∈ value ∧ value.getLast? ≠ some '\n' := by
  cases insertion with
  | text value =>
    rw [insert, insertText_run]
    by_cases breaks : '\n' ∈ value
    · have some := List.getLast?_eq_some_getLast (List.ne_nil_of_mem breaks)
      rw [if_pos breaks, writeLines_last _ _ _ (Or.inl rfl), List.getLast?_append, some]
      simp [breaks, some]
    · rw [if_neg breaks]
      simp [breaks]
  | endl =>
    unfold insert insertEndl
    simp

/-! ### What the console shows -/

namespace Console
variable [DecidableEq Thread] {prefixes : Thread → List Char} {programs : Thread → List Insertion}
  {schedule : List (Thread × Insertion)}

/-- What this turn writes, if it comes next. -/
def written (prefixes : Thread → List Char) (schedule : List (Thread × Insertion)) (turn : Thread × Insertion) : List Char :=
  (insert ⟨pending (part turn.1 schedule), prefixes turn.1⟩ turn.2).2

theorem play_snoc (prefixes : Thread → List Char) (schedule : List (Thread × Insertion)) (turn : Thread × Insertion) :
    play prefixes (schedule ++ [turn]) = (play prefixes schedule).step turn := by
  rw [play, List.foldl_append]
  rfl

theorem play_streams (prefixes : Thread → List Char) (schedule : List (Thread × Insertion)) (thread : Thread) :
    (play prefixes schedule).streams thread = ⟨pending (part thread schedule), prefixes thread⟩ := by
  induction schedule using List.reverseRecOn with
  | nil => rfl
  | append_singleton schedule turn ih =>
    obtain ⟨writer, insertion⟩ := turn
    rw [play_snoc]
    change Function.update (play prefixes schedule).streams writer
      (insert ((play prefixes schedule).streams writer) insertion).1 thread = _
    by_cases own : thread = writer
    · subst own
      rw [Function.update_self, ih, insert_stream, part_append, part_cons_own, part_nil]
    · rw [Function.update_of_ne own, ih, part_append, part_cons_other (Ne.symm own), part_nil, List.append_nil]

theorem play_cout (prefixes : Thread → List Char) (schedule : List (Thread × Insertion)) (turn : Thread × Insertion) :
    (play prefixes (schedule ++ [turn])).cout =
      (play prefixes schedule).cout ++ (written prefixes schedule turn).map fun char => (turn.1, char) := by
  rw [play_snoc]
  change (play prefixes schedule).cout ++
    (insert ((play prefixes schedule).streams turn.1) turn.2).2.map (fun char => (turn.1, char)) = _
  rw [play_streams, written]

/-- The end of a line. -/
def isNewline {Thread : Type} (char : Thread × Char) : Bool := char.2 = '\n'

omit [DecidableEq Thread] in
theorem atomic_iff (console : Console Thread) :
    console.Atomic ↔ ∀ stretch, stretch <:+: console.cout → Lines.Unbroken isNewline stretch →
      ∀ first ∈ stretch, ∀ second ∈ stretch, first.1 = second.1 :=
  Lines.lines_iff_stretches

/-- The open line on the console has been left by threads that spill. -/
def LeftBySpilling (programs : Thread → List Insertion) (console : Console Thread) : Prop :=
  ∀ tail, tail <:+ console.cout → Lines.Unbroken isNewline tail → ∀ char ∈ tail, Spills (programs char.1)

/-- The first character of an unbroken beginning of what a turn writes. -/
theorem writes_of_beginning {turn : Thread × Insertion} {beginning : List (Thread × Char)}
    (part : beginning <+: (written prefixes schedule turn).map fun char => (turn.1, char))
    (unbroken : Lines.Unbroken isNewline beginning) (present : beginning ≠ [])
    (last : Threads.part turn.1 schedule ++ [turn.2] <+: programs turn.1) :
    Writes (prefixes turn.1) (programs turn.1) := by
  refine ⟨_, turn.2, last, (insert_first ..).mp ?_⟩
  obtain ⟨char, rest, rfl⟩ := List.exists_cons_of_ne_nil present
  obtain ⟨more, shape⟩ := part
  change ∃ char, (written prefixes schedule turn).head? = some char ∧ _
  cases text : written prefixes schedule turn with
  | nil =>
    rw [text] at shape
    cases shape
  | cons first others =>
    rw [text] at shape
    have same := (List.cons.inj shape).1
    have visible := unbroken char (List.mem_cons_self ..)
    rw [same] at visible
    exact ⟨first, rfl, by simpa [isNewline] using visible⟩

/-- The last character of an unbroken end of what a turn writes. -/
theorem spills_of_ending {turn : Thread × Insertion} {ending : List (Thread × Char)}
    (part : ending <:+ (written prefixes schedule turn).map fun char => (turn.1, char))
    (unbroken : Lines.Unbroken isNewline ending) (present : ending ≠ [])
    (last : Threads.part turn.1 schedule ++ [turn.2] <+: programs turn.1) : Spills (programs turn.1) := by
  have visible : ∃ char, (written prefixes schedule turn).getLast? = some char ∧ char ≠ '\n' := by
    rcases List.eq_nil_or_concat ending with rfl | ⟨rest, char, rfl⟩
    · exact absurd rfl present
    rw [List.concat_eq_append] at part unbroken
    obtain ⟨more, shape⟩ := part
    rcases List.eq_nil_or_concat (written prefixes schedule turn) with text | ⟨others, final, text⟩
    · rw [text] at shape
      simp at shape
    · rw [text, List.concat_eq_append, List.map_append, List.map_singleton, ← List.append_assoc] at shape
      have same := (List.append_inj' shape rfl).2
      have visible := unbroken char (List.mem_append_right _ (List.mem_singleton.mpr rfl))
      rw [List.singleton_inj.mp same] at visible
      refine ⟨final, ?_, by simpa [isNewline] using visible⟩
      rw [text, List.concat_eq_append, List.getLast?_concat]
  obtain ⟨value, same, breaks, open_⟩ := (insert_last ..).mp visible
  exact ⟨value, last.subset (same ▸ List.mem_append_right _ (List.mem_singleton.mpr rfl)), breaks, open_⟩

/-- Nobody spills while another thread writes. -/
def Apart (prefixes : Thread → List Char) (programs : Thread → List Insertion) : Prop :=
  ∀ spilling writing, spilling ≠ writing →
    ¬ (Spills (programs spilling) ∧ Writes (prefixes writing) (programs writing))

theorem written_own {stretch : List (Thread × Char)} {char : Thread × Char}
    (new : stretch <:+: (written prefixes schedule (writer, insertion)).map fun char => (writer, char))
    (listed : char ∈ stretch) : char.1 = writer := by
  obtain ⟨_, _, rfl⟩ := List.mem_map.mp (new.subset listed)
  rfl

/-- A turn goes on only with a line of its own thread. -/
theorem atomic_turn (apart : Apart prefixes programs)
    (last : part writer schedule ++ [insertion] <+: programs writer)
    (atomic : (play prefixes schedule).Atomic) (left : LeftBySpilling programs (play prefixes schedule)) :
    (play prefixes (schedule ++ [(writer, insertion)])).Atomic := by
  rw [atomic_iff] at atomic ⊢
  rw [play_cout]
  intro stretch inside unbroken
  rcases List.infix_append_iff_ne_nil.mp inside with old | new | ⟨tail, beginning, _, present, rfl, rear, front⟩
  · exact atomic stretch old unbroken
  · intro first one second other
    rw [written_own new one, written_own new other]
  · -- The turn goes on with a line left open, so it was left by the same thread.
    have free := unbroken.part List.infix_append_right
    have writes := writes_of_beginning front free present last
    have all : ∀ char ∈ tail ++ beginning, char.1 = writer := by
      intro char member
      rcases List.mem_append.mp member with before | after
      · by_contra other
        exact apart char.1 writer other ⟨left tail rear (unbroken.part List.infix_append_left) char before, writes⟩
      · exact written_own front.isInfix after
    intro first one second other
    rw [all first one, all second other]

/-- What a turn leaves open it has spilled itself, unless it wrote nothing. -/
theorem leftBySpilling_turn (last : part writer schedule ++ [insertion] <+: programs writer)
    (left : LeftBySpilling programs (play prefixes schedule)) :
    LeftBySpilling programs (play prefixes (schedule ++ [(writer, insertion)])) := by
  unfold LeftBySpilling
  rw [play_cout]
  intro tail rear unbroken char member
  rcases insert_breaks (prefixes writer) (part writer schedule) insertion with nothing | breaks
  · have quiet : written prefixes schedule (writer, insertion) = [] := nothing
    rw [quiet, List.map_nil, List.append_nil] at rear
    exact left tail rear unbroken char member
  · -- What was just written has a newline, so the open line lies inside it.
    have inside : tail <:+ (written prefixes schedule (writer, insertion)).map fun char => (writer, char) := by
      rcases List.suffix_or_suffix_of_suffix rear (List.suffix_append ..) with short | longer
      · exact short
      · have newline : (writer, '\n') ∈ (written prefixes schedule (writer, insertion)).map fun char => (writer, char) :=
          List.mem_map_of_mem breaks
        have ends := unbroken _ (longer.subset newline)
        cases ends
    have spills : Spills (programs (writer, insertion).1) :=
      spills_of_ending inside unbroken (List.ne_nil_of_mem member) last
    rw [written_own inside.isInfix member]
    exact spills

/-- While nobody spills under another's writing, every line is one thread's. -/
theorem atomic_of_apart (apart : Apart prefixes programs) (interleaves : Interleaves programs schedule) :
    (play prefixes schedule).Atomic ∧ LeftBySpilling programs (play prefixes schedule) := by
  induction schedule using List.reverseRecOn with
  | nil =>
    constructor
    · intro line member first one
      rw [List.mem_singleton.mp member] at one
      cases one
    · intro tail rear unbroken char member
      cases rear.subset member
  | append_singleton schedule turn ih =>
    obtain ⟨writer, insertion⟩ := turn
    obtain ⟨atomic, left⟩ := ih interleaves.before
    exact ⟨atomic_turn apart interleaves.last atomic left, leftBySpilling_turn interleaves.last left⟩

/-- Two threads go as far as they need on their own, then one spills and the other goes on. -/
def provoking (spilling writing : Thread) (earlier before : List Insertion) (value : List Char) (insertion : Insertion) :
    List (Thread × Insertion) :=
  (turns spilling earlier ++ turns writing before) ++ [(spilling, .text value)] ++ [(writing, insertion)]

theorem provoking_interleaves {spilling writing : Thread} (other : spilling ≠ writing)
    (spills : earlier ++ [.text value] <+: programs spilling) (writes : before ++ [insertion] <+: programs writing) :
    Interleaves programs (provoking spilling writing earlier before value insertion) := by
  intro thread
  rw [provoking, part_append, part_append]
  by_cases one : thread = spilling
  · subst one
    rw [part_first other, part_cons_own, part_cons_other other.symm, part_nil, List.append_nil]
    exact spills
  by_cases two : thread = writing
  · subst two
    rw [part_second other, part_cons_own, part_cons_other other, part_nil, List.append_nil]
    exact writes
  · rw [part_append, part_turns_other (Ne.symm one), part_turns_other (Ne.symm two), part_cons_other (Ne.symm one),
      part_cons_other (Ne.symm two)]
    exact List.nil_prefix

theorem provoking_not_atomic {spilling writing : Thread} (other : spilling ≠ writing) (breaks : '\n' ∈ value)
    (left : value.getLast? ≠ some '\n') (begins : Begins (prefixes writing) before insertion) :
    ¬ (play prefixes (provoking spilling writing earlier before value insertion)).Atomic := by
  intro atomic
  have same : part writing ((turns spilling earlier ++ turns writing before) ++ [(spilling, .text value)]) = before := by
    rw [part_append, part_second other, part_cons_other other, part_nil, List.append_nil]
  obtain ⟨last, ends, lastVisible⟩ := (insert_last (prefixes spilling) (part spilling (turns spilling earlier ++
    turns writing before)) (.text value)).mpr ⟨value, rfl, breaks, left⟩
  obtain ⟨next, starts, nextVisible⟩ := (insert_first (prefixes writing) before insertion).mpr begins
  obtain ⟨front, spilt⟩ := List.getLast?_eq_some_iff.mp ends
  obtain ⟨rest, begun⟩ := List.head?_eq_some_iff.mp starts
  rw [atomic_iff, provoking, play_cout, play_cout, written, written, spilt, same, begun] at atomic
  have unbroken : Lines.Unbroken isNewline [(spilling, last), (writing, next)] := by
    intro char listed
    rcases List.mem_cons.mp listed with rfl | listed
    · simpa [isNewline] using lastVisible
    · rw [List.mem_singleton.mp listed]
      simpa [isNewline] using nextVisible
  have inside : [(spilling, last), (writing, next)] <:+:
      (play prefixes (turns spilling earlier ++ turns writing before)).cout ++
        (front ++ [last]).map (fun char => (spilling, char)) ++ (next :: rest).map fun char => (writing, char) :=
    ⟨(play prefixes (turns spilling earlier ++ turns writing before)).cout ++ front.map (fun char => (spilling, char)),
      rest.map fun char => (writing, char), by simp⟩
  exact other (atomic _ inside unbroken _ (List.mem_cons_self ..) _ (List.mem_cons_of_mem _ (List.mem_cons_self ..)))

/-- Every line on the console is one thread's, in every interleaving, exactly when
no thread inserts a value with a newline that does not end with one while another
thread writes anything that does not begin with a newline. -/
theorem lines_atomic_iff (prefixes : Thread → List Char) (programs : Thread → List Insertion) :
    (∀ schedule, Interleaves programs schedule → (play prefixes schedule).Atomic) ↔ Apart prefixes programs := by
  constructor
  · rintro atomic spilling writing other ⟨⟨value, member, breaks, left⟩, before, insertion, first, begins⟩
    obtain ⟨earlier, later, split⟩ := List.append_of_mem member
    have spills : earlier ++ [.text value] <+: programs spilling :=
      ⟨later, by rw [split, List.append_assoc, List.singleton_append]⟩
    exact provoking_not_atomic other breaks left begins (atomic _ (provoking_interleaves other spills first))
  · exact fun apart schedule interleaves => (atomic_of_apart apart interleaves).1

/-- Two threads without prefixes insert `"a\nb"` and `"c\n"`: the console shows a line `bc`. -/
theorem lines_of_spill_mixed :
    ¬ ∀ (prefixes : Bool → List Char) (programs : Bool → List Insertion) (schedule : List (Bool × Insertion)),
      Interleaves programs schedule → (play prefixes schedule).Atomic := by
  intro holds
  have interleaves : Interleaves (fun thread => if thread then [.text ['c', '\n']] else [.text ['a', '\n', 'b']])
      (provoking false true [] [] ['a', '\n', 'b'] (.text ['c', '\n'])) :=
    provoking_interleaves (by decide) List.prefix_rfl List.prefix_rfl
  have begins : Begins ((fun _ => []) true) [] (.text ['c', '\n']) := ⟨by decide, by decide⟩
  exact provoking_not_atomic Bool.false_ne_true (by decide) (by decide) begins (holds (fun _ => []) _ _ interleaves)

end Console

end ThreadSafeIOStream
end Libftpp
